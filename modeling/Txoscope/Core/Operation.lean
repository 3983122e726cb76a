import Mathlib.Data.Finset.Card
import Txoscope.Core.Utxo

/-!
# Operations, selections and locks

A selection names the inputs of an operation, the scope of its change and the locks to take. It is
recorded as an intent before it is applied, and `validateCapabilities` is the check every backend
repeats inside its atomic write.
-/

namespace Txoscope

/-! ## Accounts and scopes -/

structure Account where
  id : AccountId
  name : String
  scopes : List WalletScopeId
  capabilities : CapabilitySet
  deriving DecidableEq

structure WalletScope where
  id : WalletScopeId
  accountId : AccountId
  descriptorRef : String
  derivationScope : String
  capabilities : CapabilitySet
  priority : UInt32
  deriving DecidableEq

/-! ## Locks -/

inductive LockPurpose where
  | manualReservation
  | btcSend
  | feeSupport
  | plannedSelection
  deriving DecidableEq, Repr

def LockPurpose.requiredCapabilities : LockPurpose → CapabilitySet
  | btcSend => {.btcSpend}
  | plannedSelection => {.reserveSupport}
  | feeSupport => {.reserveSupport, .feeSupport}
  | manualReservation => {.reserveSupport, .singleTargetReserve}

/-- Fee support is an input role; the resulting change remains a planned output. -/
def LockPurpose.requiredChangeCapabilities : LockPurpose → CapabilitySet
  | feeSupport => requiredCapabilities plannedSelection
  | other => other.requiredCapabilities

structure OperationLock where
  operationId : OperationId
  accountId : AccountId
  scopeId : WalletScopeId
  purpose : LockPurpose
  owner : String
  createdAt : ℕ
  expiresAt : Option ℕ
  deriving DecidableEq, Repr

/-! ## Selections and intents -/

/-- `SelectionEffect::LockUtxo`, the only effect there is. -/
structure SelectionEffect where
  outpoint : OutPoint
  purpose : LockPurpose
  deriving DecidableEq, Repr

structure OperationSelection where
  operationId : OperationId
  selectedOutpoints : List OutPoint
  changeScopeId : WalletScopeId
  effects : List SelectionEffect
  expiresAt : Option ℕ
  deriving DecidableEq, Repr

structure OperationIntent where
  selection : OperationSelection
  status : IntentStatus
  recordedAt : ℕ
  deriving DecidableEq, Repr

structure PersistedOperation where
  operationId : OperationId
  phase : OperationPhase
  updatedAt : ℕ
  expiresAt : Option ℕ
  deriving DecidableEq, Repr

/-! ## The forward lifecycle -/

/-- The transitions `complete_operation` may make. -/
def OperationPhase.canAdvance : OperationPhase → OperationPhase → Bool
  | .selected, .constructing | .selected, .signed | .selected, .broadcast
  | .selected, .awaitingConfirmation | .selected, .awaitingL2Finality => true
  | .constructing, .signed | .constructing, .broadcast | .constructing, .awaitingConfirmation
  | .constructing, .awaitingL2Finality => true
  | .signed, .broadcast | .signed, .awaitingConfirmation | .signed, .awaitingL2Finality => true
  | .broadcast, .awaitingConfirmation | .broadcast, .awaitingL2Finality => true
  | .awaitingConfirmation, .awaitingL2Finality => true
  | _, _ => false

/-- Checks the forward lifecycle at the current stored phase; `false` is an idempotent call. -/
def PersistedOperation.validateAdvance (operation : PersistedOperation)
    (completedPhase : OperationPhase) : DomainResult Bool :=
  if operation.phase = completedPhase then .ok false
  else if !operation.phase.canAdvance completedPhase then
    .error (.invalidOperationTransition operation.operationId operation.phase completedPhase)
  else .ok true

theorem PersistedOperation.validateAdvance_eq_ok_true_iff {operation : PersistedOperation}
    {p : OperationPhase} :
    operation.validateAdvance p = .ok true ↔ operation.phase.canAdvance p = true := by
  unfold validateAdvance
  split_ifs with h h'
  · simp only [Except.ok.injEq, Bool.false_eq_true, false_iff, h]
    cases p <;> decide
  · simpa using h'
  · simpa using h'

theorem OperationPhase.canAdvance_ne_rollingBack {p q : OperationPhase}
    (h : p.canAdvance q = true) : p ≠ .rollingBack ∧ q ≠ .rollingBack ∧ q ≠ .selected := by
  cases p <;> cases q <;> simp_all [canAdvance]

/-! ## Structure and capabilities of a selection -/

namespace OperationSelection

/-- The outpoints of the effects, refusing a repetition. -/
def collectEffects : List SelectionEffect → Finset OutPoint → DomainResult (Finset OutPoint)
  | [], seen => .ok seen
  | effect :: effects, seen =>
    if effect.outpoint ∈ seen then .error (.corruptedState "duplicate selection effect")
    else collectEffects effects (insert effect.outpoint seen)

variable {m : Type → Type} [Monad m] [MonadExceptOf DomainError m]

/-- One scope, its account and the capabilities both must grant. -/
def validateScope (getAccount : AccountId → m (Option Account))
    (getScope : WalletScopeId → m (Option WalletScope)) (accountId : AccountId)
    (scopeId : WalletScopeId) (required : CapabilitySet) : m Unit := do
  match ← getAccount accountId with
  | none => throw (.accountNotFound accountId)
  | some account =>
    if !account.capabilities.containsAll required then
      throw (.missingAccountCapabilities accountId)
    else
      match ← getScope scopeId with
      | none => throw (.scopeNotFound scopeId)
      | some scope =>
        if scope.accountId ≠ accountId ∨ scopeId ∉ account.scopes then
          throw (.scopeNotFound scopeId)
        else if !scope.capabilities.containsAll required then
          throw (.missingCapabilities scopeId)
        else pure ()

/-- The effects in turn, collecting what their change must be allowed to do. -/
def validateEffects (getAccount : AccountId → m (Option Account))
    (getScope : WalletScopeId → m (Option WalletScope))
    (getUtxo : OutPoint → m (Option ManagedUtxo)) :
    List SelectionEffect → CapabilitySet → m CapabilitySet
  | [], changeRequired => pure changeRequired
  | effect :: effects, changeRequired => do
    match ← getUtxo effect.outpoint with
    | none => throw (.utxoNotFound effect.outpoint)
    | some utxo =>
      validateScope getAccount getScope utxo.accountId utxo.scopeId
        effect.purpose.requiredCapabilities
      validateEffects getAccount getScope getUtxo effects
        (changeRequired ∪ effect.purpose.requiredChangeCapabilities)

/-- The inputs are non-empty and distinct, and are exactly the outpoints of the effects. -/
def validateStructure (selection : OperationSelection) : DomainResult Unit := do
  let effects ← collectEffects selection.effects ∅
  let selected := selection.selectedOutpoints.toFinset
  if selected = ∅ ∨ selected.card ≠ selection.selectedOutpoints.length ∨ selected ≠ effects then
    throw (.corruptedState
      "selection inputs and lock effects must match and be non-empty and unique")

/-- Validates selection structure and the current account and scope capabilities. -/
def validateCapabilities (selection : OperationSelection)
    (getAccount : AccountId → m (Option Account))
    (getScope : WalletScopeId → m (Option WalletScope))
    (getUtxo : OutPoint → m (Option ManagedUtxo)) : m Unit := do
  match selection.validateStructure with
  | .error e => throw e
  | .ok () =>
    let changeRequired ← validateEffects getAccount getScope getUtxo selection.effects ∅
    match ← getScope selection.changeScopeId with
    | none => throw (.scopeNotFound selection.changeScopeId)
    | some changeScope =>
      validateScope getAccount getScope changeScope.accountId changeScope.id changeRequired

end OperationSelection

end Txoscope
