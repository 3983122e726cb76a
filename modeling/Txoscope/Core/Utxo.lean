import Txoscope.Core.Basic

/-!
# Managed outputs

A managed output records who owns a transaction output, its value, its on-chain state and
availability, the operation it is bound to, and a conflict between observations. The methods of
`ManagedUtxo` are the only rules by which a binding is made, advanced and released.
-/

namespace Txoscope

/-- Which operation an output is bound to, and in which phase. -/
structure OperationBinding where
  operationId : OperationId
  phase : OperationPhase
  deriving DecidableEq, Repr

structure ObservationConflict where
  message : String
  recordedAt : ℕ
  deriving DecidableEq, Repr

structure ManagedUtxo where
  outpoint : OutPoint
  accountId : AccountId
  scopeId : WalletScopeId
  valueSats : ℕ
  onchainState : OnchainState
  availability : Availability
  role : UtxoRole
  operationBinding : Option OperationBinding
  observationConflict : Option ObservationConflict
  deriving DecidableEq, Repr

/-! ## Observed confirmations -/

inductive ObservedConfirmation where
  | unknown
  | mempool
  | confirmed (height timestamp : ℕ)
  deriving DecidableEq, Repr

/-- `OnchainState::from(&ObservedConfirmation)`. -/
def ObservedConfirmation.onchainState : ObservedConfirmation → OnchainState
  | unknown => .unknown
  | mempool => .unconfirmedIncoming
  | confirmed _ _ => .confirmed

theorem ObservedConfirmation.onchainState_ne_spent (confirmation : ObservedConfirmation) :
    confirmation.onchainState ≠ .spent := by
  cases confirmation <;> simp [onchainState]

theorem ObservedConfirmation.onchainState_ne_spendingInFlight
    (confirmation : ObservedConfirmation) : confirmation.onchainState ≠ .spendingInFlight := by
  cases confirmation <;> simp [onchainState]

/-- `Availability::from(&ObservedConfirmation)`. -/
def ObservedConfirmation.availability : ObservedConfirmation → Availability
  | confirmed _ _ => .selectable
  | unknown | mempool => .blockedByPolicy

/-- A phase from which the transaction may already be on its way to the chain. -/
def OperationPhase.startsSpending : OperationPhase → Bool
  | .broadcast | .awaitingConfirmation | .awaitingL2Finality => true
  | _ => false

/-- `Spent` or `SpendingInFlight`. -/
def OnchainState.isSpending : OnchainState → Bool
  | .spent | .spendingInFlight => true
  | _ => false

namespace ManagedUtxo

/-- `ManagedUtxo::new`. -/
def new (outpoint : OutPoint) (accountId : AccountId) (scopeId : WalletScopeId)
    (valueSats : ℕ) : ManagedUtxo where
  outpoint
  accountId
  scopeId
  valueSats
  onchainState := .confirmed
  availability := .selectable
  role := .general
  operationBinding := none
  observationConflict := none

def isPolicySpendable (u : ManagedUtxo) : Bool :=
  u.availability == .selectable && u.onchainState == .confirmed && u.operationBinding.isNone &&
    u.observationConflict.isNone

def canBeLocked (u : ManagedUtxo) (lockPresent : Bool) : Bool :=
  u.isPolicySpendable && !lockPresent

def reserve (u : ManagedUtxo) (operationId : OperationId) (phase : OperationPhase) :
    ManagedUtxo :=
  { u with availability := .reserved, operationBinding := some ⟨operationId, phase⟩ }

def discoverFromObserved (outpoint : OutPoint) (accountId : AccountId) (scopeId : WalletScopeId)
    (valueSats : ℕ) (confirmation : ObservedConfirmation) : ManagedUtxo where
  outpoint
  accountId
  scopeId
  valueSats
  onchainState := confirmation.onchainState
  availability := confirmation.availability
  role := .general
  operationBinding := none
  observationConflict := none

def markSpent (u : ManagedUtxo) : ManagedUtxo :=
  { u with onchainState := .spent, availability := .blockedByL2, operationBinding := none }

def markMissing (u : ManagedUtxo) : ManagedUtxo := { u with availability := .recovering }

/-- The availability an output is left with when its binding is released. -/
def releasedAvailability (u : ManagedUtxo) : Availability :=
  if u.onchainState.isSpending then .blockedByL2
  else if u.availability ≠ .recovering then
    if u.onchainState = .confirmed ∧ u.observationConflict = none then .selectable
    else .blockedByPolicy
  else u.availability

def releaseBinding (u : ManagedUtxo) : ManagedUtxo :=
  { u with availability := u.releasedAvailability, operationBinding := none }

/-- Advances local ownership without releasing the input. -/
def advanceBinding (u : ManagedUtxo) (phase : OperationPhase) : ManagedUtxo :=
  match u.operationBinding with
  | none => u
  | some binding =>
    let u := { u with operationBinding := some { binding with phase } }
    if phase.startsSpending then
      { u with
        onchainState := if u.onchainState ≠ .spent then .spendingInFlight else u.onchainState
        availability := .blockedByL2 }
    else u

/-- The binding names `operationId`. -/
def boundTo (u : ManagedUtxo) (operationId : OperationId) : Bool :=
  u.operationBinding.any (·.operationId == operationId)

/-- Releases an output bound to `operationId`, as the loop of `release_operation` does. -/
def releaseIfBound (u : ManagedUtxo) (operationId : OperationId) : ManagedUtxo :=
  if u.boundTo operationId then u.releaseBinding else u

/-- Advances an output bound to `operationId`, as the loop of `complete_operation` does. -/
def advanceIfBound (u : ManagedUtxo) (operationId : OperationId) (phase : OperationPhase) :
    ManagedUtxo :=
  if u.boundTo operationId then u.advanceBinding phase else u

/-! ### What the methods leave -/

theorem isPolicySpendable_iff {u : ManagedUtxo} :
    u.isPolicySpendable = true ↔ u.availability = .selectable ∧ u.onchainState = .confirmed ∧
      u.operationBinding = none ∧ u.observationConflict = none := by
  unfold isPolicySpendable
  simp only [Bool.and_eq_true, beq_iff_eq, Option.isNone_iff_eq_none, and_assoc]

theorem canBeLocked_iff {u : ManagedUtxo} {lockPresent : Bool} :
    u.canBeLocked lockPresent = true ↔ u.isPolicySpendable = true ∧ lockPresent = false := by
  unfold canBeLocked
  rw [Bool.and_eq_true, Bool.not_eq_true']

theorem boundTo_iff {u : ManagedUtxo} {id : OperationId} :
    u.boundTo id = true ↔ ∃ b, u.operationBinding = some b ∧ b.operationId = id := by
  unfold boundTo
  cases u.operationBinding with
  | none => simp
  | some b => simp

theorem boundTo_of_binding {u : ManagedUtxo} {b : OperationBinding}
    (h : u.operationBinding = some b) : u.boundTo b.operationId = true :=
  boundTo_iff.mpr ⟨b, h, rfl⟩

theorem not_boundTo_of_binding {u : ManagedUtxo} {b : OperationBinding} {id : OperationId}
    (h : u.operationBinding = some b) (hne : b.operationId ≠ id) : u.boundTo id = false := by
  rw [← Bool.not_eq_true, boundTo_iff]
  rintro ⟨b', hb', rfl⟩
  rw [h] at hb'
  cases hb'
  exact hne rfl

theorem not_boundTo_of_none {u : ManagedUtxo} {id : OperationId} (h : u.operationBinding = none) :
    u.boundTo id = false := by
  rw [← Bool.not_eq_true, boundTo_iff]
  rintro ⟨b, hb, -⟩
  rw [h] at hb
  cases hb

theorem releaseIfBound_of_free {u : ManagedUtxo} {id : OperationId} (h : u.boundTo id = false) :
    u.releaseIfBound id = u :=
  if_neg (Bool.eq_false_iff.mp h)

theorem advanceIfBound_of_free {u : ManagedUtxo} {id : OperationId} (h : u.boundTo id = false)
    (phase : OperationPhase) : u.advanceIfBound id phase = u :=
  if_neg (Bool.eq_false_iff.mp h)

@[simp] theorem advanceBinding_outpoint (u : ManagedUtxo) (p : OperationPhase) :
    (u.advanceBinding p).outpoint = u.outpoint := by
  unfold advanceBinding
  cases u.operationBinding with
  | none => rfl
  | some b => split_ifs <;> rfl

@[simp] theorem advanceBinding_accountId (u : ManagedUtxo) (p : OperationPhase) :
    (u.advanceBinding p).accountId = u.accountId := by
  unfold advanceBinding
  cases u.operationBinding with
  | none => rfl
  | some b => split_ifs <;> rfl

@[simp] theorem advanceBinding_scopeId (u : ManagedUtxo) (p : OperationPhase) :
    (u.advanceBinding p).scopeId = u.scopeId := by
  unfold advanceBinding
  cases u.operationBinding with
  | none => rfl
  | some b => split_ifs <;> rfl

@[simp] theorem advanceBinding_observationConflict (u : ManagedUtxo) (p : OperationPhase) :
    (u.advanceBinding p).observationConflict = u.observationConflict := by
  unfold advanceBinding
  cases u.operationBinding with
  | none => rfl
  | some b => split_ifs <;> rfl

@[simp] theorem releaseIfBound_outpoint (u : ManagedUtxo) (id : OperationId) :
    (u.releaseIfBound id).outpoint = u.outpoint := by
  unfold releaseIfBound
  split_ifs <;> rfl

@[simp] theorem advanceIfBound_outpoint (u : ManagedUtxo) (id : OperationId)
    (p : OperationPhase) : (u.advanceIfBound id p).outpoint = u.outpoint := by
  unfold advanceIfBound
  split_ifs <;> simp

/-- An advance keeps the owner and moves the phase of the binding. -/
theorem advanceBinding_operationBinding (u : ManagedUtxo) (p : OperationPhase) :
    (u.advanceBinding p).operationBinding = u.operationBinding.map fun b => { b with phase := p } := by
  unfold advanceBinding
  cases h : u.operationBinding with
  | none => rw [h, Option.map_none]
  | some b => split_ifs <;> rfl

theorem releaseIfBound_operationBinding (u : ManagedUtxo) (id : OperationId) :
    (u.releaseIfBound id).operationBinding =
      u.operationBinding.filter fun b => b.operationId ≠ id := by
  unfold releaseIfBound
  split_ifs with h
  · obtain ⟨b, hb, rfl⟩ := boundTo_iff.mp h
    rw [hb, Option.filter_some, if_neg (by simp)]
    rfl
  · cases hb : u.operationBinding with
    | none => rfl
    | some b =>
      rw [Option.filter_some, if_pos]
      exact decide_eq_true fun heq => h (boundTo_iff.mpr ⟨b, hb, heq⟩)

theorem advanceIfBound_operationBinding (u : ManagedUtxo) (id : OperationId)
    (p : OperationPhase) :
    (u.advanceIfBound id p).operationBinding =
      u.operationBinding.map fun b => if b.operationId = id then { b with phase := p } else b := by
  unfold advanceIfBound
  split_ifs with h
  · obtain ⟨b, hb, rfl⟩ := boundTo_iff.mp h
    rw [advanceBinding_operationBinding, hb, Option.map_some, Option.map_some, if_pos rfl]
  · cases hb : u.operationBinding with
    | none => rfl
    | some b =>
      rw [Option.map_some, if_neg]
      exact fun heq => h (boundTo_iff.mpr ⟨b, hb, heq⟩)

@[simp] theorem releaseIfBound_accountId (u : ManagedUtxo) (id : OperationId) :
    (u.releaseIfBound id).accountId = u.accountId := by
  unfold releaseIfBound
  split_ifs <;> rfl

@[simp] theorem releaseIfBound_scopeId (u : ManagedUtxo) (id : OperationId) :
    (u.releaseIfBound id).scopeId = u.scopeId := by
  unfold releaseIfBound
  split_ifs <;> rfl

@[simp] theorem advanceIfBound_accountId (u : ManagedUtxo) (id : OperationId)
    (p : OperationPhase) : (u.advanceIfBound id p).accountId = u.accountId := by
  unfold advanceIfBound
  split_ifs <;> simp

@[simp] theorem advanceIfBound_scopeId (u : ManagedUtxo) (id : OperationId)
    (p : OperationPhase) : (u.advanceIfBound id p).scopeId = u.scopeId := by
  unfold advanceIfBound
  split_ifs <;> simp

end ManagedUtxo

end Txoscope
