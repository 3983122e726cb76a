import Mathlib.Data.Set.Basic
import Mathlib.Logic.Function.Basic
import Txoscope.Core.SelectionSpec
import Txoscope.Core.StateStore
import Txoscope.Lib.Pointwise

/-!
# The ledger

What a store is for, without its tables: an account, scope, operation and intent under each
identity, and a `Cell` under each outpoint, the managed output together with its lock. Every write
acts on the cells one by one, so what happens to an outpoint is the run of its own cell. Listings
are sets. Both backends are compared with this model.
-/

namespace Txoscope

/-! ## Cells -/

/-- What is recorded under one outpoint. -/
@[ext]
structure Cell where
  utxo : Option ManagedUtxo
  lock : Option OperationLock

/-- The outpoint an action is about. -/
def ReconciliationAction.outpoint : ReconciliationAction → OutPoint
  | discoverNew observed | refreshObserved observed => observed.outpoint
  | updateOnchainState outpoint _ | markSpent outpoint _ | reportConflict outpoint _ _
  | clearConflict outpoint | updateAvailability outpoint _ | markMissing outpoint => outpoint

/-- The actions of a plan about one outpoint, in order. -/
def ReconcilePlan.actionsOn (plan : ReconcilePlan) (o : OutPoint) : List ReconciliationAction :=
  plan.actions.filter fun action => action.outpoint = o

namespace Cell

def empty : Cell := ⟨none, none⟩

/-- The binding of the output, if it is managed and bound. -/
def binding (c : Cell) : Option OperationBinding := c.utxo.bind (·.operationBinding)

/-- The output is bound to `id`. -/
def BoundTo (c : Cell) (id : OperationId) : Prop := ∃ u, c.utxo = some u ∧ u.boundTo id = true

def release (id : OperationId) (c : Cell) : Cell where
  utxo := c.utxo.map (·.releaseIfBound id)
  lock := c.lock.filter (·.operationId ≠ id)

def advance (id : OperationId) (phase : OperationPhase) (c : Cell) : Cell where
  utxo := c.utxo.map (·.advanceIfBound id phase)
  lock := c.lock.map fun lock =>
    if lock.operationId = id then { lock with expiresAt := none } else lock

/-- One reconciliation action on the cell it is about. -/
def act (c : Cell) : ReconciliationAction → Cell
  | .discoverNew observed =>
    if c.utxo.isSome then c
    else { c with utxo := some (ManagedUtxo.discoverFromObserved observed.outpoint
      observed.accountId observed.scopeId observed.valueSats observed.confirmation) }
  | .refreshObserved _ => c
  | .updateOnchainState _ newState =>
    { c with utxo := c.utxo.map fun utxo =>
        if !utxo.onchainState.isSpending then { utxo with onchainState := newState } else utxo }
  | .markSpent _ _ => ⟨c.utxo.map ManagedUtxo.markSpent, none⟩
  | .reportConflict _ message recordedAt =>
    { c with utxo := c.utxo.map fun utxo =>
        { utxo with observationConflict := some ⟨message, recordedAt⟩ } }
  | .clearConflict _ =>
    { c with utxo := c.utxo.map fun utxo => { utxo with observationConflict := none } }
  | .updateAvailability _ availability =>
    { c with utxo := c.utxo.map fun utxo => { utxo with availability } }
  | .markMissing _ => { c with utxo := c.utxo.map ManagedUtxo.markMissing }

/-- Whether `batch` may hold the output with a lock for `purpose`. -/
def checkHold (batch : StateBatch) (effect : SelectionEffect) (c : Cell) : DomainResult Unit :=
  match c.utxo with
  | none => .error (.utxoNotFound effect.outpoint)
  | some utxo =>
    if alreadyApplied batch.selection.operationId batch.phase utxo c.lock then
      if c.lock.any (lockDiffers batch utxo effect.purpose) then
        .error (.intentConflict batch.selection.operationId)
      else .ok ()
    else if utxo.canBeLocked c.lock.isSome then .ok ()
    else .error (lockRefusal utxo c.lock.isSome effect.outpoint)

/-- Binds and locks the output for `batch`, unless it is held by it already. -/
def hold (batch : StateBatch) (tick : ℕ) (purpose : LockPurpose) (c : Cell) : Cell :=
  match c.utxo with
  | none => c
  | some utxo =>
    if alreadyApplied batch.selection.operationId batch.phase utxo c.lock then c
    else ⟨some (utxo.reserve batch.selection.operationId batch.phase),
      some (newLock batch tick utxo purpose)⟩

end Cell

/-! ## The ledger -/

@[ext]
structure Ledger where
  account : AccountId → Option Account
  scope : WalletScopeId → Option WalletScope
  cell : OutPoint → Cell
  operation : OperationId → Option PersistedOperation
  intent : OperationId → Option OperationIntent
  tick : ℕ

/-- What a call returns, with listings as sets. -/
abbrev StoreCall.SetOut : StoreCall → Type
  | listUtxos => Set ManagedUtxo
  | listOperations => Set PersistedOperation
  | listPendingIntents => Set OperationIntent
  | releaseSelectedOperation _ => Option (Set OutPoint)
  | releaseOperation _ _ | completeOperation _ _ => Set OutPoint
  | c => c.Out

namespace Ledger

def empty : Ledger where
  account _ := none
  scope _ := none
  cell _ := Cell.empty
  operation _ := none
  intent _ := none
  tick := 0

def utxo (l : Ledger) (o : OutPoint) : Option ManagedUtxo := (l.cell o).utxo

def lock (l : Ledger) (o : OutPoint) : Option OperationLock := (l.cell o).lock

/-- The outpoints bound to an operation. -/
def boundOutpoints (l : Ledger) (id : OperationId) : Set OutPoint := {o | (l.cell o).BoundTo id}

def nextTick (l : Ledger) : Ledger := { l with tick := saturatingAdd l.tick 1 }

def putAccount (l : Ledger) (account : Account) : Ledger :=
  { l with account := Function.update l.account account.id (some account) }.nextTick

def putScope (l : Ledger) (scope : WalletScope) : DomainResult Unit × Ledger :=
  match l.account scope.accountId with
  | none => (.error (.accountNotFound scope.accountId), l)
  | some account =>
    (.ok (), { l with
      account := Function.update l.account scope.accountId
        (some { account with scopes := account.scopes ++ [scope.id] })
      scope := Function.update l.scope scope.id (some scope) }.nextTick)

def putUtxo (l : Ledger) (utxo : ManagedUtxo) : Ledger :=
  let cell := { l.cell utxo.outpoint with utxo := some utxo }
  { l with cell := Function.update l.cell utxo.outpoint cell }.nextTick

def advanceTick (l : Ledger) (delta : ℕ) : Ledger :=
  { l with tick := saturatingAdd l.tick (max delta 1) }

def persistIntent (l : Ledger) (selection : OperationSelection) :
    DomainResult OperationIntent × Ledger :=
  match l.intent selection.operationId with
  | some existing =>
    if existing.selection ≠ selection then (.error (.intentConflict selection.operationId), l)
    else (.ok existing, l)
  | none =>
    let l := l.nextTick
    let intent : OperationIntent := { selection, status := .pending, recordedAt := l.tick }
    (.ok intent, { l with intent := Function.update l.intent selection.operationId (some intent) })

/-- Writes the status of a recorded intent. -/
def setStatus (l : Ledger) (id : OperationId) (intent : OperationIntent) (status : IntentStatus) :
    Ledger :=
  { l with intent := Function.update l.intent id (some { intent with status }) }.nextTick

def markIntentCommitted (l : Ledger) (id : OperationId) : DomainResult Unit × Ledger :=
  match l.intent id with
  | none => (.error (.intentNotFound id), l)
  | some intent =>
    if intent.status = .failed then (.error (.intentNotPending id), l)
    else (.ok (), l.setStatus id intent .committed)

/-- Records an operation in a new phase at the next tick. -/
def setOperation (l : Ledger) (id : OperationId) (phase : OperationPhase)
    (expiresAt : Option ℕ) : Ledger :=
  let l := l.nextTick
  let operation := { operationId := id, phase, updatedAt := l.tick, expiresAt }
  { l with operation := Function.update l.operation id (some operation) }

def releaseOperation (l : Ledger) (id : OperationId) (releasedPhase : OperationPhase) : Ledger :=
  { l with cell := fun o => (l.cell o).release id }.setOperation id releasedPhase none

def releaseSelectedOperation (l : Ledger) (id : OperationId) : Option (Set OutPoint) × Ledger :=
  if !(l.operation id).any (·.phase = .selected) then (none, l)
  else (some (l.boundOutpoints id), l.releaseOperation id .rollingBack)

def markIntentFailed (l : Ledger) (id : OperationId) : DomainResult Unit × Ledger :=
  match l.intent id with
  | none => (.error (.intentNotFound id), l)
  | some intent =>
    match intent.status with
    | .committed => (.error (.intentNotPending id), l)
    | .failed => (.ok (), l)
    | .pending =>
      match l.operation id with
      | none => (.ok (), l.setStatus id intent .failed)
      | some operation =>
        match operation.phase with
        | .selected => (.ok (), (l.releaseOperation id .rollingBack).setStatus id intent .failed)
        | .rollingBack => (.ok (), l.setStatus id intent .failed)
        | phase => (.error (.invalidOperationTransition id phase .rollingBack), l)

/-- The checks of a batch against the recorded intent and operation. -/
def checkBatch (l : Ledger) (batch : StateBatch) : DomainResult Unit := do
  match l.intent batch.selection.operationId with
  | some intent =>
    if intent.status = .failed then throw (.intentNotPending batch.selection.operationId)
    if intent.selection ≠ batch.selection then
      throw (.intentConflict batch.selection.operationId)
  | none => pure ()
  match l.operation batch.selection.operationId with
  | some operation =>
    if operation.phase ≠ batch.phase ∨ operation.phase = .rollingBack then
      throw (.invalidOperationTransition batch.selection.operationId operation.phase batch.phase)
  | none => pure ()

/-- Every check of `apply_batch`. -/
def validateBatch (l : Ledger) (batch : StateBatch) : DomainResult Unit := do
  l.checkBatch batch
  batch.selection.validateCapabilities (m := DomainResult) (fun id => .ok (l.account id))
    (fun id => .ok (l.scope id)) (fun o => .ok (l.utxo o))
  forM batch.selection.effects fun effect => (l.cell effect.outpoint).checkHold batch effect

/-- The cells after a valid batch. -/
def holdCells (l : Ledger) (batch : StateBatch) : OutPoint → Cell :=
  Pointwise.updateEach (·.outpoint) (fun effect c => c.hold batch l.tick effect.purpose)
    batch.selection.effects l.cell

def applyBatch (l : Ledger) (batch : StateBatch) : DomainResult Unit × Ledger :=
  match l.validateBatch batch with
  | .error e => (.error e, l)
  | .ok () =>
    (.ok (), { l with cell := l.holdCells batch }.setOperation batch.selection.operationId
      batch.phase batch.selection.expiresAt)

/-- Every outpoint undergoes its own actions of the plan, in order. -/
def applyReconciliation (l : Ledger) (plan : ReconcilePlan) : Ledger :=
  { l with cell := fun o => (plan.actionsOn o).foldl Cell.act (l.cell o) }.nextTick

def advanceOperation (l : Ledger) (id : OperationId) (completedPhase : OperationPhase) : Ledger :=
  { l with cell := fun o => (l.cell o).advance id completedPhase }.setOperation id completedPhase
    none

def completeOperation (l : Ledger) (id : OperationId) (completedPhase : OperationPhase) :
    DomainResult (Set OutPoint) × Ledger :=
  match l.operation id with
  | none => (.error (.operationNotFound id), l)
  | some operation =>
    match l.intent id with
    | none => (.error (.intentNotFound id), l)
    | some intent =>
      if intent.status ≠ .committed then (.error (.intentNotCommitted id), l)
      else
        match operation.validateAdvance completedPhase with
        | .error e => (.error e, l)
        | .ok false => (.ok ∅, l)
        | .ok true => (.ok (l.boundOutpoints id), l.advanceOperation id completedPhase)

/-- The calls on a ledger. -/
def exec : (c : StoreCall) → Ledger → DomainResult c.SetOut × Ledger
  | .getAccount id, l => (.ok (l.account id), l)
  | .getScope id, l => (.ok (l.scope id), l)
  | .getUtxo o, l => (.ok (l.utxo o), l)
  | .getLock o, l => (.ok (l.lock o), l)
  | .getOperation id, l => (.ok (l.operation id), l)
  | .getIntent id, l => (.ok (l.intent id), l)
  | .listUtxos, l => (.ok {u | ∃ o, l.utxo o = some u}, l)
  | .listOperations, l => (.ok {op | ∃ id, l.operation id = some op}, l)
  | .listPendingIntents, l =>
    (.ok {i | (∃ id, l.intent id = some i) ∧ i.status = .pending}, l)
  | .currentTick, l => (.ok l.tick, l)
  | .putAccount account, l => (.ok (), l.putAccount account)
  | .putScope scope, l => l.putScope scope
  | .putUtxo utxo, l => (.ok (), l.putUtxo utxo)
  | .advanceTick delta, l => (.ok (), l.advanceTick delta)
  | .persistIntent selection, l => l.persistIntent selection
  | .markIntentCommitted id, l => l.markIntentCommitted id
  | .markIntentFailed id, l => l.markIntentFailed id
  | .applyBatch batch, l => l.applyBatch batch
  | .applyReconciliation plan, l => (.ok (), l.applyReconciliation plan)
  | .releaseSelectedOperation id, l =>
    (.ok (l.releaseSelectedOperation id).1, (l.releaseSelectedOperation id).2)
  | .releaseOperation id phase, l => (.ok (l.boundOutpoints id), l.releaseOperation id phase)
  | .completeOperation id phase, l => l.completeOperation id phase

/-- The records are kept under their own keys. -/
structure WellKeyed (l : Ledger) : Prop where
  utxo : ∀ o u, l.utxo o = some u → u.outpoint = o
  account : ∀ id a, l.account id = some a → a.id = id
  scope : ∀ id sc, l.scope id = some sc → sc.id = id
  operation : ∀ id op, l.operation id = some op → op.operationId = id
  intent : ∀ id i, l.intent id = some i → i.selection.operationId = id

end Ledger

end Txoscope
