import Txoscope.Core.Reconciliation
import Txoscope.Core.Selector

/-!
# The orchestrator

The methods of `Orchestrator` as clients of a store. The owner label is an argument. A method that
handles the error of another runs it with `attempt`.
-/

namespace Txoscope

structure RecoveryReport where
  replayedOperations : List OperationId
  failedOperations : List OperationId
  deriving DecidableEq, Repr

structure CleanupReport where
  releasedOperations : List OperationId
  releasedOutpoints : List OutPoint
  deriving DecidableEq, Repr

namespace Orchestrator

/-! ## Registration and observation -/

def addAccount (account : Account) : Client Unit := (StoreCall.putAccount account).invoke

def addScope (scope : WalletScope) : Client Unit := (StoreCall.putScope scope).invoke

def addUtxo (utxo : ManagedUtxo) : Client Unit := (StoreCall.putUtxo utxo).invoke

def advanceTick (delta : ℕ) : Client Unit := (StoreCall.advanceTick delta).invoke

def reconcileSnapshot (snapshot : ObservationSnapshot) : Client ReconcilePlan := do
  let plan ← ReconciliationPlanner.plan snapshot
  (StoreCall.applyReconciliation plan).invoke
  return plan

/-! ## Proposing -/

/-- Refuses a repeated outpoint, with `message` in front of its text. -/
def checkUnique (message : String) : List OutPoint → Finset OutPoint → DomainResult Unit
  | [], _ => .ok ()
  | outpoint :: outpoints, unique =>
    if outpoint ∈ unique then .error (.invalidRequest (message ++ outpoint.display))
    else checkUnique message outpoints (insert outpoint unique)

/-- The check of exact outpoints before anything is read. -/
def checkExactOutpoints (outpoints : List OutPoint) : DomainResult Unit :=
  checkUnique "exact selection includes duplicate outpoint: " outpoints ∅

/-- The checks of `propose_operation` on the specification alone. -/
def checkSpec : InputSelectionSpec → DomainResult Unit
  | .exactOutpoints [] =>
    .error (.invalidRequest "exact selection requires at least one outpoint")
  | .exactOutpoints outpoints => checkExactOutpoints outpoints
  | _ => .ok ()

/-- The scopes of the account that satisfy the request capabilities. -/
def eligibleScopes (accountId : AccountId) (required : CapabilitySet) :
    List WalletScopeId → Client (List WalletScopeId)
  | [] => return []
  | scopeId :: scopeIds => do
    let scope ← (StoreCall.getScope scopeId).invoke
    let eligible ← eligibleScopes accountId required scopeIds
    if scope.any fun s => s.accountId = accountId ∧ s.capabilities.containsAll required then
      return scopeId :: eligible
    else return eligible

def proposeOperation (request : SelectionRequest) : Client OperationSelection := do
  let req := request.intoOperationRequest
  Program.ofExcept (checkSpec req.selection.spec)
  let accountId := req.selection.accountId
  match ← (StoreCall.getAccount accountId).invoke with
  | none => throw (.accountNotFound accountId)
  | some account =>
    if !account.capabilities.containsAll req.selection.requiredCapabilities then
      throw (.missingAccountCapabilities accountId)
    else
      let eligible ← eligibleScopes accountId req.selection.requiredCapabilities account.scopes
      if eligible.isEmpty && !req.selection.spec.isExact then
        throw (.noEligibleScope accountId)
      else
        let inputs ← selectInputs ⟨accountId, account.scopes, eligible⟩ req.selection.spec
        return OperationSelection.fromRequest req inputs

/-! ## Committing -/

section Owner

variable (owner : String)

/-- The check of one effect in `validate_selection`. -/
def validateEffect (operationId : OperationId) (effect : SelectionEffect) : Client Unit := do
  match ← (StoreCall.getUtxo effect.outpoint).invoke with
  | none => throw (.utxoNotFound effect.outpoint)
  | some utxo =>
    let lock ← (StoreCall.getLock effect.outpoint).invoke
    if utxo.isPolicySpendable ∧ lock = none then return ()
    else if alreadyApplied operationId .selected utxo lock then return ()
    else throw (lockRefusal utxo lock.isSome effect.outpoint)

def validateSelection (selection : OperationSelection) : Client Unit := do
  selection.validateCapabilities (m := Client) (fun id => (StoreCall.getAccount id).invoke)
    (fun id => (StoreCall.getScope id).invoke) (fun o => (StoreCall.getUtxo o).invoke)
  Program.forEach (validateEffect selection.operationId) selection.effects

/-- An operation on record must still be `Selected`. -/
def requireSelected (operationId : OperationId) : Option PersistedOperation → Client Unit
  | some operation =>
    if operation.phase ≠ .selected then
      throw (.invalidOperationTransition operationId operation.phase .selected)
    else return ()
  | none => return ()

def commitSelection (selection : OperationSelection) : Client Unit := do
  let operation ← (StoreCall.getOperation selection.operationId).invoke
  requireSelected selection.operationId operation
  validateSelection selection
  (StoreCall.applyBatch ⟨selection, .selected, owner⟩).invoke

/-- The outpoint a refusal is about, when it may be another operation's lock. -/
def contendedOutpoint : DomainError → Option OutPoint
  | .utxoUnavailable outpoint _ | .utxoPolicyBlocked outpoint _ => some outpoint
  | _ => none

def isPendingLockConflict (operationId : OperationId) (error : DomainError) : Client Bool := do
  match contendedOutpoint error with
  | none => return false
  | some outpoint =>
    match ← (StoreCall.getLock outpoint).invoke with
    | none => return false
    | some lock =>
      if lock.operationId = operationId then return false
      else
        let intent ← (StoreCall.getIntent lock.operationId).invoke
        return intent.any (·.status = .pending)

def persistSelectionIntent (selection : OperationSelection) : Client OperationIntent :=
  (StoreCall.persistIntent selection).invoke

def commitRecordedIntent (operationId : OperationId) : Client Unit := do
  match ← (StoreCall.getIntent operationId).invoke with
  | none => throw (.intentNotFound operationId)
  | some intent =>
    match intent.status with
    | .committed => return ()
    | .failed => throw (.intentNotPending operationId)
    | .pending =>
      match ← (commitSelection owner intent.selection).attempt with
      | .ok () => (StoreCall.markIntentCommitted operationId).invoke
      | .error (.storage reason) => throw (.storage reason)
      | .error err =>
        let conflict ← isPendingLockConflict operationId err
        if conflict then throw err
        else
          (StoreCall.markIntentFailed operationId).invoke
          throw err

def failRecordedIntent (operationId : OperationId) : Client Unit := do
  match ← (StoreCall.getIntent operationId).invoke with
  | none => throw (.intentNotFound operationId)
  | some intent =>
    match intent.status with
    | .committed => throw (.intentNotPending operationId)
    | .failed => return ()
    | .pending => (StoreCall.markIntentFailed operationId).invoke

def applySelection (selection : OperationSelection) : Client Unit := do
  let _ ← persistSelectionIntent selection
  commitRecordedIntent owner selection.operationId

def preparePendingOperation (request : SelectionRequest) : Client OperationSelection := do
  let selection ← proposeOperation request
  let _ ← persistSelectionIntent selection
  return selection

def prepareOperation (request : SelectionRequest) : Client OperationSelection := do
  let selection ← preparePendingOperation request
  commitRecordedIntent owner selection.operationId
  return selection

/-! ## Recovery -/

/-- What one pass over `pending` leaves: some of them deferred, fewer if there was progress. -/
structure RecoveryPass (pending : List OperationIntent) where
  deferred : List OperationIntent
  progressed : Bool
  report : RecoveryReport
  sublist : deferred.Sublist pending
  fewer : progressed = true → deferred.length < pending.length

/-- A pass whose first intent was resolved. -/
def RecoveryPass.resolved {pending : List OperationIntent} (intent : OperationIntent)
    (pass : RecoveryPass pending) : RecoveryPass (intent :: pending) where
  deferred := pass.deferred
  progressed := true
  report := pass.report
  sublist := pass.sublist.cons intent
  fewer _ := Nat.lt_succ_of_le pass.sublist.length_le

/-- A pass whose first intent was put off. -/
def RecoveryPass.defer {pending : List OperationIntent} (intent : OperationIntent)
    (pass : RecoveryPass pending) : RecoveryPass (intent :: pending) where
  deferred := intent :: pass.deferred
  progressed := pass.progressed
  report := pass.report
  sublist := pass.sublist.cons_cons intent
  fewer h := Nat.succ_lt_succ (pass.fewer h)

/-- One pass over the pending intents. -/
def recoverPass : (pending : List OperationIntent) → RecoveryReport →
    Client (RecoveryPass pending)
  | [], report => return ⟨[], false, report, .slnil, fun h => nomatch h⟩
  | intent :: pending, report => do
    let operationId := intent.selection.operationId
    match ← (commitSelection owner intent.selection).attempt with
    | .ok () =>
      (StoreCall.markIntentCommitted operationId).invoke
      let pass ← recoverPass pending
        { report with replayedOperations := report.replayedOperations ++ [operationId] }
      return pass.resolved intent
    | .error (.storage reason) => throw (.storage reason)
    | .error err =>
      let conflict ← isPendingLockConflict operationId err
      if conflict then
        let pass ← recoverPass pending report
        return pass.defer intent
      else
        (StoreCall.markIntentFailed operationId).invoke
        let pass ← recoverPass pending
          { report with failedOperations := report.failedOperations ++ [operationId] }
        return pass.resolved intent

/-- Passes until none is pending or a pass makes no progress. -/
def recoverLoop : (rounds : ℕ) → (pending : List OperationIntent) → pending.length ≤ rounds →
    RecoveryReport → Client RecoveryReport
  | _, [], _, report => return report
  | rounds + 1, intent :: pending, h, report => do
    let pass ← recoverPass owner (intent :: pending) report
    -- contention is retried only after some holder was committed or rejected
    if hp : pass.progressed = true then
      recoverLoop rounds pass.deferred (Nat.le_of_lt_succ (Nat.lt_of_lt_of_le (pass.fewer hp) h))
        pass.report
    else return pass.report

def recoverPendingIntents : Client RecoveryReport := do
  let pending ← StoreCall.listPendingIntents.invoke
  recoverLoop owner pending.length pending (Nat.le_refl _) ⟨[], []⟩

end Owner

/-! ## Releasing and advancing -/

def currentOperation (operationId : OperationId) : Client PersistedOperation := do
  match ← (StoreCall.getOperation operationId).invoke with
  | some operation => return operation
  | none => throw (.operationNotFound operationId)

def releaseSelectedOperation (operationId : OperationId) : Client (Option (List OutPoint)) :=
  (StoreCall.releaseSelectedOperation operationId).invoke

/-- Every phase other than `RollingBack` may be released. -/
def releaseOperation (operationId : OperationId) : Client (List OutPoint) := do
  let operation ← currentOperation operationId
  if operation.phase = .rollingBack then return []
  else (StoreCall.releaseOperation operationId .rollingBack).invoke

/-- The loop of `cleanup_stale_reservations`. -/
def releaseStale : List OperationId → CleanupReport → Client CleanupReport
  | [], report => return report
  | operationId :: operationIds, report => do
    match ← releaseSelectedOperation operationId with
    | some released =>
      releaseStale operationIds ⟨report.releasedOperations ++ [operationId],
        report.releasedOutpoints ++ released⟩
    | none => releaseStale operationIds report

/-- A reservation that is at least `maxAge` ticks old. -/
def isStale (now maxAge : ℕ) (operation : PersistedOperation) : Bool :=
  operation.phase = .selected ∧ saturatingSub now operation.updatedAt ≥ maxAge

def cleanupStaleReservations (maxAge : ℕ) : Client CleanupReport := do
  let now ← StoreCall.currentTick.invoke
  let operations ← StoreCall.listOperations.invoke
  releaseStale ((operations.filter (isStale now maxAge)).map (·.operationId)) ⟨[], []⟩

def verifyPlannedInputs (operationId : OperationId) (actualOutpoints : List OutPoint) :
    Client Unit := do
  match ← (StoreCall.getIntent operationId).invoke with
  | none => throw (.intentNotFound operationId)
  | some planned =>
    if planned.selection.selectedOutpoints.toFinset = actualOutpoints.toFinset then return ()
    else throw (.plannedInputsMismatch operationId)

/-- Actual inputs are verified when leaving `Selected`. -/
def verifyLeavingSelected (operationId : OperationId) (operation : PersistedOperation)
    (actualOutpoints : List OutPoint) : Client Unit :=
  if operation.phase = .selected then verifyPlannedInputs operationId actualOutpoints
  else return ()

def completeOperation (operationId : OperationId) (completedPhase : OperationPhase)
    (actualOutpoints : List OutPoint) : Client (List OutPoint) := do
  let operation ← currentOperation operationId
  match ← (StoreCall.getIntent operationId).invoke with
  | none => throw (.intentNotFound operationId)
  | some intent =>
    if intent.status ≠ .committed then throw (.intentNotCommitted operationId)
    else
      let advances ← Program.ofExcept (operation.validateAdvance completedPhase)
      if !advances then return []
      else
        verifyLeavingSelected operationId operation actualOutpoints
        (StoreCall.completeOperation operationId completedPhase).invoke

/-! ## Methods -/

/-- A call of a method, with its arguments. -/
inductive Method where
  | addAccount (account : Account)
  | addScope (scope : WalletScope)
  | addUtxo (utxo : ManagedUtxo)
  | advanceTick (delta : ℕ)
  | reconcileSnapshot (snapshot : ObservationSnapshot)
  | proposeOperation (request : SelectionRequest)
  | preparePendingOperation (request : SelectionRequest)
  | prepareOperation (request : SelectionRequest)
  | applySelection (selection : OperationSelection)
  | persistSelectionIntent (selection : OperationSelection)
  | commitRecordedIntent (operationId : OperationId)
  | failRecordedIntent (operationId : OperationId)
  | recoverPendingIntents
  | cleanupStaleReservations (maxAge : ℕ)
  | releaseSelectedOperation (operationId : OperationId)
  | releaseOperation (operationId : OperationId)
  | verifyPlannedInputs (operationId : OperationId) (actualOutpoints : List OutPoint)
  | completeOperation (operationId : OperationId) (completedPhase : OperationPhase)
      (actualOutpoints : List OutPoint)

/-- A method as a client that drops what the method returns. -/
def Method.program (owner : String) : Method → Client Unit
  | addAccount account => Orchestrator.addAccount account
  | addScope scope => Orchestrator.addScope scope
  | addUtxo utxo => Orchestrator.addUtxo utxo
  | advanceTick delta => Orchestrator.advanceTick delta
  | reconcileSnapshot snapshot => do let _ ← Orchestrator.reconcileSnapshot snapshot
  | proposeOperation request => do let _ ← Orchestrator.proposeOperation request
  | preparePendingOperation request => do let _ ← Orchestrator.preparePendingOperation request
  | prepareOperation request => do let _ ← Orchestrator.prepareOperation owner request
  | applySelection selection => Orchestrator.applySelection owner selection
  | persistSelectionIntent selection => do let _ ← Orchestrator.persistSelectionIntent selection
  | commitRecordedIntent id => Orchestrator.commitRecordedIntent owner id
  | failRecordedIntent id => Orchestrator.failRecordedIntent id
  | recoverPendingIntents => do let _ ← Orchestrator.recoverPendingIntents owner
  | cleanupStaleReservations maxAge => do let _ ← Orchestrator.cleanupStaleReservations maxAge
  | releaseSelectedOperation id => do let _ ← Orchestrator.releaseSelectedOperation id
  | releaseOperation id => do let _ ← Orchestrator.releaseOperation id
  | verifyPlannedInputs id outpoints => Orchestrator.verifyPlannedInputs id outpoints
  | completeOperation id phase outpoints => do
    let _ ← Orchestrator.completeOperation id phase outpoints

end Orchestrator

end Txoscope
