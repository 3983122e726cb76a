import Txoscope.Core.Reconciliation
import Txoscope.Lib.Dict

/-!
# The in-memory store

`InMemoryStateStore` with its operations as the code computes them. Outputs and locks are keyed by
the text of their outpoint. A dictionary's iteration order is unspecified: the order of its entries
stands for whatever order the hash map has.
-/

namespace Txoscope

structure InMemoryStateStore where
  accounts : Dict AccountId Account
  scopes : Dict WalletScopeId WalletScope
  utxos : Dict String ManagedUtxo
  locks : Dict String OperationLock
  operations : Dict OperationId PersistedOperation
  intents : Dict OperationId OperationIntent
  tick : ℕ

namespace InMemoryStateStore

/-- `InMemoryStateStore::default`. -/
def empty : InMemoryStateStore := ⟨∅, ∅, ∅, ∅, ∅, ∅, 0⟩

/-! ## Reads -/

def getAccount (s : InMemoryStateStore) (accountId : AccountId) : Option Account :=
  s.accounts.get accountId

def getScope (s : InMemoryStateStore) (scopeId : WalletScopeId) : Option WalletScope :=
  s.scopes.get scopeId

def getUtxo (s : InMemoryStateStore) (outpoint : OutPoint) : Option ManagedUtxo :=
  s.utxos.get outpoint.display

def getLock (s : InMemoryStateStore) (outpoint : OutPoint) : Option OperationLock :=
  s.locks.get outpoint.display

def getOperation (s : InMemoryStateStore) (operationId : OperationId) :
    Option PersistedOperation :=
  s.operations.get operationId

def getIntent (s : InMemoryStateStore) (operationId : OperationId) : Option OperationIntent :=
  s.intents.get operationId

def listUtxos (s : InMemoryStateStore) : List ManagedUtxo := s.utxos.values

def listOperations (s : InMemoryStateStore) : List PersistedOperation := s.operations.values

def listPendingIntents (s : InMemoryStateStore) : List OperationIntent :=
  s.intents.values.filter fun intent => intent.status = .pending

/-! ## Writes -/

def nextTick (s : InMemoryStateStore) : InMemoryStateStore :=
  { s with tick := saturatingAdd s.tick 1 }

def putAccount (s : InMemoryStateStore) (account : Account) : InMemoryStateStore :=
  { s with accounts := s.accounts.set account.id account }.nextTick

def putScope (s : InMemoryStateStore) (scope : WalletScope) :
    DomainResult Unit × InMemoryStateStore :=
  match s.accounts.get scope.accountId with
  | none => (.error (.accountNotFound scope.accountId), s)
  | some account =>
    (.ok (), { s with
      accounts := s.accounts.set scope.accountId { account with scopes := account.scopes ++ [scope.id] }
      scopes := s.scopes.set scope.id scope }.nextTick)

def putUtxo (s : InMemoryStateStore) (utxo : ManagedUtxo) : InMemoryStateStore :=
  { s with utxos := s.utxos.set utxo.outpoint.display utxo }.nextTick

def advanceTick (s : InMemoryStateStore) (delta : ℕ) : InMemoryStateStore :=
  { s with tick := saturatingAdd s.tick (max delta 1) }

def persistIntent (s : InMemoryStateStore) (selection : OperationSelection) :
    DomainResult OperationIntent × InMemoryStateStore :=
  match s.intents.get selection.operationId with
  | some existing =>
    if existing.selection ≠ selection then (.error (.intentConflict selection.operationId), s)
    else (.ok existing, s)
  | none =>
    let s := s.nextTick
    let intent : OperationIntent := { selection, status := .pending, recordedAt := s.tick }
    (.ok intent, { s with intents := s.intents.set selection.operationId intent })

def markIntentCommitted (s : InMemoryStateStore) (operationId : OperationId) :
    DomainResult Unit × InMemoryStateStore :=
  match s.intents.get operationId with
  | none => (.error (.intentNotFound operationId), s)
  | some intent =>
    if intent.status = .failed then (.error (.intentNotPending operationId), s)
    else
      (.ok (), { s with
        intents := s.intents.set operationId { intent with status := .committed } }.nextTick)

def releaseOperation (s : InMemoryStateStore) (operationId : OperationId)
    (releasedPhase : OperationPhase) : List OutPoint × InMemoryStateStore :=
  let released := (s.utxos.values.filter (·.boundTo operationId)).map (·.outpoint)
  let nextUtxos := s.utxos.mapValues (·.releaseIfBound operationId)
  let nextLocks := s.locks.retain fun lock => lock.operationId ≠ operationId
  let s := s.nextTick
  (released, { s with
    utxos := nextUtxos
    locks := nextLocks
    operations := s.operations.set operationId
      { operationId, phase := releasedPhase, updatedAt := s.tick, expiresAt := none } })

def releaseSelectedOperation (s : InMemoryStateStore) (operationId : OperationId) :
    Option (List OutPoint) × InMemoryStateStore :=
  if !(s.operations.get operationId).any (·.phase = .selected) then (none, s)
  else
    let (released, s) := s.releaseOperation operationId .rollingBack
    (some released, s)

/-- The status written last by `mark_intent_failed`. -/
def setIntentFailed (s : InMemoryStateStore) (operationId : OperationId)
    (intent : OperationIntent) : InMemoryStateStore :=
  { s with intents := s.intents.set operationId { intent with status := .failed } }.nextTick

def markIntentFailed (s : InMemoryStateStore) (operationId : OperationId) :
    DomainResult Unit × InMemoryStateStore :=
  match s.getIntent operationId with
  | none => (.error (.intentNotFound operationId), s)
  | some intent =>
    match intent.status with
    | .committed => (.error (.intentNotPending operationId), s)
    | .failed => (.ok (), s)
    | .pending =>
      match s.getOperation operationId with
      | none => (.ok (), s.setIntentFailed operationId intent)
      | some operation =>
        match operation.phase with
        | .selected =>
          (.ok (), (s.releaseOperation operationId .rollingBack).2.setIntentFailed operationId intent)
        | .rollingBack => (.ok (), s.setIntentFailed operationId intent)
        | phase =>
          (.error (.invalidOperationTransition operationId phase .rollingBack), s)

/-! ### Applying a batch -/

def validateLockEffect (utxos : Dict String ManagedUtxo) (locks : Dict String OperationLock)
    (selection : OperationSelection) (phase : OperationPhase) (outpoint : OutPoint) :
    DomainResult Unit :=
  match utxos.get outpoint.display with
  | none => .error (.utxoNotFound outpoint)
  | some utxo =>
    let lock := locks.get outpoint.display
    if utxo.canBeLocked lock.isSome then .ok ()
    else if alreadyApplied selection.operationId phase utxo lock then .ok ()
    else .error (lockRefusal utxo lock.isSome outpoint)

/-- One effect of a batch, on the outputs and locks as the effects before it left them. -/
def applyEffect (batch : StateBatch) (tick : ℕ) (effect : SelectionEffect)
    (st : Dict String ManagedUtxo × Dict String OperationLock) :
    DomainResult (Dict String ManagedUtxo × Dict String OperationLock) := do
  let (utxos, locks) := st
  validateLockEffect utxos locks batch.selection batch.phase effect.outpoint
  let key := effect.outpoint.display
  match utxos.get key with
  | none => throw (.utxoNotFound effect.outpoint)
  | some utxo =>
    if alreadyApplied batch.selection.operationId batch.phase utxo (locks.get key) then
      if (locks.get key).any (lockDiffers batch utxo effect.purpose) then
        throw (.intentConflict batch.selection.operationId)
      else return (utxos, locks)
    else
      return (utxos.set key (utxo.reserve batch.selection.operationId batch.phase),
        locks.set key (newLock batch tick utxo effect.purpose))

/-- The effects of a batch in turn. -/
def applyEffects (batch : StateBatch) (tick : ℕ) :
    List SelectionEffect → Dict String ManagedUtxo × Dict String OperationLock →
      DomainResult (Dict String ManagedUtxo × Dict String OperationLock)
  | [], st => .ok st
  | effect :: effects, st => do
    let st ← applyEffect batch tick effect st
    applyEffects batch tick effects st

/-- The checks of a batch against the recorded intent and operation. -/
def checkBatch (s : InMemoryStateStore) (batch : StateBatch) : DomainResult Unit := do
  match s.getIntent batch.selection.operationId with
  | some intent =>
    if intent.status = .failed then throw (.intentNotPending batch.selection.operationId)
    if intent.selection ≠ batch.selection then
      throw (.intentConflict batch.selection.operationId)
  | none => pure ()
  match s.getOperation batch.selection.operationId with
  | some operation =>
    if operation.phase ≠ batch.phase ∨ operation.phase = .rollingBack then
      throw (.invalidOperationTransition batch.selection.operationId operation.phase batch.phase)
  | none => pure ()

/-- The body of `apply_batch`: every check, and the outputs and locks it leaves. -/
def planBatch (s : InMemoryStateStore) (batch : StateBatch) :
    DomainResult (Dict String ManagedUtxo × Dict String OperationLock) := do
  s.checkBatch batch
  batch.selection.validateCapabilities (m := DomainResult) (fun id => .ok (s.getAccount id))
    (fun id => .ok (s.getScope id)) (fun id => .ok (s.getUtxo id))
  applyEffects batch s.tick batch.selection.effects (s.utxos, s.locks)

def applyBatch (s : InMemoryStateStore) (batch : StateBatch) :
    DomainResult Unit × InMemoryStateStore :=
  match s.planBatch batch with
  | .error e => (.error e, s)
  | .ok (nextUtxos, nextLocks) =>
    let s := s.nextTick
    (.ok (), { s with
      utxos := nextUtxos
      locks := nextLocks
      operations := s.operations.set batch.selection.operationId
        { operationId := batch.selection.operationId, phase := batch.phase, updatedAt := s.tick
          expiresAt := batch.selection.expiresAt } })

/-! ### Applying a reconciliation plan -/

def applyAction (s : InMemoryStateStore) : ReconciliationAction → InMemoryStateStore
  | .discoverNew observed =>
    if (s.utxos.get observed.outpoint.display).isSome then s
    else
      let utxo := ManagedUtxo.discoverFromObserved observed.outpoint observed.accountId
        observed.scopeId observed.valueSats observed.confirmation
      { s with utxos := s.utxos.set utxo.outpoint.display utxo }
  | .refreshObserved _ => s
  | .updateOnchainState outpoint newState =>
    { s with utxos := s.utxos.modify outpoint.display fun utxo =>
        if !utxo.onchainState.isSpending then { utxo with onchainState := newState } else utxo }
  | .markSpent outpoint _ =>
    { s with
      utxos := s.utxos.modify outpoint.display ManagedUtxo.markSpent
      locks := s.locks.remove outpoint.display }
  | .reportConflict outpoint message recordedAt =>
    { s with utxos := s.utxos.modify outpoint.display fun utxo =>
        { utxo with observationConflict := some ⟨message, recordedAt⟩ } }
  | .clearConflict outpoint =>
    { s with utxos := s.utxos.modify outpoint.display fun utxo =>
        { utxo with observationConflict := none } }
  | .updateAvailability outpoint availability =>
    { s with utxos := s.utxos.modify outpoint.display fun utxo => { utxo with availability } }
  | .markMissing outpoint =>
    { s with utxos := s.utxos.modify outpoint.display ManagedUtxo.markMissing }

def applyReconciliation (s : InMemoryStateStore) (plan : ReconcilePlan) : InMemoryStateStore :=
  (plan.actions.foldl applyAction s).nextTick

/-! ### Advancing an operation -/

/-- The write of `complete_operation` after its checks. -/
def advanceOperation (s : InMemoryStateStore) (operationId : OperationId)
    (completedPhase : OperationPhase) : List OutPoint × InMemoryStateStore :=
  let completed := (s.utxos.values.filter (·.boundTo operationId)).map (·.outpoint)
  let nextUtxos := s.utxos.mapValues (·.advanceIfBound operationId completedPhase)
  let nextLocks := s.locks.mapValues fun lock =>
    if lock.operationId = operationId then { lock with expiresAt := none } else lock
  let s := s.nextTick
  (completed, { s with
    utxos := nextUtxos
    locks := nextLocks
    operations := s.operations.set operationId
      { operationId, phase := completedPhase, updatedAt := s.tick, expiresAt := none } })

def completeOperation (s : InMemoryStateStore) (operationId : OperationId)
    (completedPhase : OperationPhase) : DomainResult (List OutPoint) × InMemoryStateStore :=
  match s.operations.get operationId with
  | none => (.error (.operationNotFound operationId), s)
  | some operation =>
    match s.intents.get operationId with
    | none => (.error (.intentNotFound operationId), s)
    | some intent =>
      if intent.status ≠ .committed then (.error (.intentNotCommitted operationId), s)
      else
        match operation.validateAdvance completedPhase with
        | .error e => (.error e, s)
        | .ok false => (.ok [], s)
        | .ok true =>
          let (completed, s) := s.advanceOperation operationId completedPhase
          (.ok completed, s)

/-! ## The store as an atomic implementation of the calls -/

def exec : StoreExec InMemoryStateStore
  | .getAccount id, s => (.ok (s.getAccount id), s)
  | .getScope id, s => (.ok (s.getScope id), s)
  | .getUtxo o, s => (.ok (s.getUtxo o), s)
  | .getLock o, s => (.ok (s.getLock o), s)
  | .getOperation id, s => (.ok (s.getOperation id), s)
  | .getIntent id, s => (.ok (s.getIntent id), s)
  | .listUtxos, s => (.ok s.listUtxos, s)
  | .listOperations, s => (.ok s.listOperations, s)
  | .listPendingIntents, s => (.ok s.listPendingIntents, s)
  | .currentTick, s => (.ok s.tick, s)
  | .putAccount account, s => (.ok (), s.putAccount account)
  | .putScope scope, s => s.putScope scope
  | .putUtxo utxo, s => (.ok (), s.putUtxo utxo)
  | .advanceTick delta, s => (.ok (), s.advanceTick delta)
  | .persistIntent selection, s => s.persistIntent selection
  | .markIntentCommitted id, s => s.markIntentCommitted id
  | .markIntentFailed id, s => s.markIntentFailed id
  | .applyBatch batch, s => s.applyBatch batch
  | .applyReconciliation plan, s => (.ok (), s.applyReconciliation plan)
  | .releaseSelectedOperation id, s =>
    (.ok (s.releaseSelectedOperation id).1, (s.releaseSelectedOperation id).2)
  | .releaseOperation id phase, s =>
    (.ok (s.releaseOperation id phase).1, (s.releaseOperation id phase).2)
  | .completeOperation id phase, s => s.completeOperation id phase

/-- The same records, iterated over in any order. -/
structure SameContents (s s' : InMemoryStateStore) : Prop where
  accounts : s.accounts.SameContents s'.accounts
  scopes : s.scopes.SameContents s'.scopes
  utxos : s.utxos.SameContents s'.utxos
  locks : s.locks.SameContents s'.locks
  operations : s.operations.SameContents s'.operations
  intents : s.intents.SameContents s'.intents
  tick : s.tick = s'.tick

theorem exec_read_snd {c : StoreCall} (h : c.IsRead) (s : InMemoryStateStore) :
    (exec c s).2 = s := by
  cases c <;> first | rfl | exact h.elim

end InMemoryStateStore

end Txoscope
