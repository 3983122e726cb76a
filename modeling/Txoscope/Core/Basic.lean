import Mathlib.Data.Finset.Basic
import Mathlib.Data.Fintype.Basic
import Txoscope.Lib.Text

/-!
# Identifiers, outpoints, states and errors

The vocabulary shared by the whole workspace: opaque identities, transaction outputs with their
text form, capabilities, the states of a managed output, the phases of an operation, and the
domain errors. A `u64` of the source is a natural number; the operations that saturate say so.
-/

namespace Txoscope

/-! ## Numbers -/

def u64Max : ℕ := 2 ^ 64 - 1

def u32Max : ℕ := 2 ^ 32 - 1

theorem toNat_le_u32Max (n : UInt32) : n.toNat ≤ u32Max := by
  have := n.toNat_lt
  unfold u32Max
  omega

theorem toNat_ofNat_of_le {n : ℕ} (h : n ≤ u32Max) : (UInt32.ofNat n).toNat = n := by
  refine UInt32.toNat_ofNat_of_lt ?_
  exact Nat.lt_of_le_of_lt h (by decide)

/-- `u64::saturating_add`. -/
def saturatingAdd (a b : ℕ) : ℕ := min (a + b) u64Max

theorem saturatingAdd_le (a b : ℕ) : saturatingAdd a b ≤ u64Max := min_le_right _ _

theorem le_saturatingAdd {a : ℕ} (h : a ≤ u64Max) (b : ℕ) : a ≤ saturatingAdd a b := by
  unfold saturatingAdd
  omega

/-- `u64::saturating_sub`. -/
def saturatingSub (a b : ℕ) : ℕ := a - b

/-! ## Identities -/

/-- An opaque account identity. -/
structure AccountId where
  value : String
  deriving DecidableEq, Repr

/-- An opaque wallet scope identity. -/
structure WalletScopeId where
  value : String
  deriving DecidableEq, Repr

/-- An opaque operation identity, including manual reservations. -/
structure OperationId where
  value : String
  deriving DecidableEq, Repr

instance : ToString AccountId := ⟨AccountId.value⟩
instance : ToString WalletScopeId := ⟨WalletScopeId.value⟩
instance : ToString OperationId := ⟨OperationId.value⟩

/-! ## Transaction outputs -/

/-- A transaction output: an opaque transaction ID and a `u32` index. -/
structure OutPoint where
  txid : String
  vout : UInt32
  deriving DecidableEq, Repr

namespace OutPoint

/-- `Display` of an outpoint, which is also its key in the stores. -/
def display (o : OutPoint) : String := o.txid ++ ":" ++ Nat.repr o.vout.toNat

instance : ToString OutPoint := ⟨display⟩

/-- `OutPoint::from_str`: the last colon is the separator. -/
def parse (value : String) : Option OutPoint :=
  match Text.rsplitOnce ':' value with
  | none => none
  | some (txid, vout) => (Text.parseUnsigned u32Max vout).map fun n => ⟨txid, UInt32.ofNat n⟩

theorem rsplitOnce_eq_some_iff {value txid index : String} :
    Text.rsplitOnce ':' value = some (txid, index) ↔
      value = txid ++ ":" ++ index ∧ ':' ∉ index.toList := by
  rw [Text.rsplitOnce_eq_some_iff, ← String.toList_inj, String.toList_append,
    String.toList_append, List.append_assoc]
  rfl

theorem rsplitOnce_display (o : OutPoint) :
    Text.rsplitOnce ':' o.display = some (o.txid, Nat.repr o.vout.toNat) :=
  rsplitOnce_eq_some_iff.mpr ⟨rfl, Text.not_mem_repr (by decide)⟩

/-- The text form of an outpoint is parsed back to it. -/
theorem parse_display (o : OutPoint) : parse o.display = some o := by
  unfold parse
  rw [rsplitOnce_display]
  simp only [Text.parseUnsigned_repr (toNat_le_u32Max o.vout), Option.map_some,
    UInt32.ofNat_toNat]

/-- What is parsed to an outpoint: its transaction ID, the last colon and a numeral of its index. -/
theorem parse_eq_some_iff {value : String} {o : OutPoint} :
    parse value = some o ↔ ∃ index n, value = o.txid ++ ":" ++ index ∧ ':' ∉ index.toList ∧
      Text.Numeral index n ∧ n ≤ u32Max ∧ o.vout.toNat = n := by
  unfold parse
  constructor
  · intro h
    cases hsplit : Text.rsplitOnce ':' value with
    | none =>
      rw [hsplit] at h
      cases h
    | some p =>
      obtain ⟨txid, index⟩ := p
      rw [hsplit] at h
      obtain ⟨n, hparse, rfl⟩ := Option.map_eq_some_iff.mp h
      obtain ⟨hvalue, hcolon⟩ := rsplitOnce_eq_some_iff.mp hsplit
      obtain ⟨hnumeral, hle⟩ := Text.parseUnsigned_eq_some_iff.mp hparse
      exact ⟨index, n, hvalue, hcolon, hnumeral, hle, toNat_ofNat_of_le hle⟩
  · rintro ⟨index, n, hvalue, hcolon, hnumeral, hle, rfl⟩
    rw [rsplitOnce_eq_some_iff.mpr ⟨hvalue, hcolon⟩]
    simp only [Text.parseUnsigned_eq_some_iff.mpr ⟨hnumeral, hle⟩, Option.map_some,
      UInt32.ofNat_toNat]

theorem display_injective : Function.Injective display := by
  intro o o' h
  have hp := parse_display o
  rw [h, parse_display] at hp
  exact (Option.some.inj hp).symm

@[simp] theorem display_inj {o o' : OutPoint} : o.display = o'.display ↔ o = o' :=
  display_injective.eq_iff

end OutPoint

/-! ## Capabilities -/

/-- Account and scope capability flags. -/
inductive Capability where
  | btcSpend
  | btcReceive
  | feeSupport
  | reserveSupport
  | singleTargetReserve
  | l2Settlement
  | consolidationSource
  | consolidationTarget
  deriving DecidableEq, Repr

abbrev CapabilitySet := Finset Capability

/-- `CapabilitySet::contains_all`. -/
def CapabilitySet.containsAll (granted required : CapabilitySet) : Bool :=
  decide (required ⊆ granted)

theorem CapabilitySet.containsAll_iff {granted required : CapabilitySet} :
    CapabilitySet.containsAll granted required = true ↔ required ⊆ granted := by
  unfold CapabilitySet.containsAll
  exact decide_eq_true_iff

/-! ## States of a managed output -/

inductive OnchainState where
  | unknown
  | unconfirmedIncoming
  | confirmed
  | spendingInFlight
  | spent
  deriving DecidableEq, Repr

inductive Availability where
  | unknown
  | selectable
  | reserved
  | locked
  | blockedByPolicy
  | blockedByL2
  | recovering
  deriving DecidableEq, Repr

inductive UtxoRole where
  | unknown
  | general
  | spendPreferred
  | reserve
  | recoveryOutput
  | consolidationCandidate
  deriving DecidableEq, Repr

/-- The `Debug` text of an on-chain state. -/
def OnchainState.debug : OnchainState → String
  | unknown => "Unknown"
  | unconfirmedIncoming => "UnconfirmedIncoming"
  | confirmed => "Confirmed"
  | spendingInFlight => "SpendingInFlight"
  | spent => "Spent"

/-- The `Debug` text of an availability. -/
def Availability.debug : Availability → String
  | unknown => "Unknown"
  | selectable => "Selectable"
  | reserved => "Reserved"
  | locked => "Locked"
  | blockedByPolicy => "BlockedByPolicy"
  | blockedByL2 => "BlockedByL2"
  | recovering => "Recovering"

/-! ## Phases of an operation -/

inductive OperationPhase where
  | selected
  | constructing
  | signed
  | broadcast
  | awaitingConfirmation
  | awaitingL2Finality
  | rollingBack
  deriving DecidableEq, Repr

/-- The `Debug` text of a phase. -/
def OperationPhase.debug : OperationPhase → String
  | selected => "Selected"
  | constructing => "Constructing"
  | signed => "Signed"
  | broadcast => "Broadcast"
  | awaitingConfirmation => "AwaitingConfirmation"
  | awaitingL2Finality => "AwaitingL2Finality"
  | rollingBack => "RollingBack"

inductive IntentStatus where
  | pending
  | committed
  | failed
  deriving DecidableEq, Repr

/-! ## Errors -/

/-- Errors returned by domain operations and store backends. A rejected asset candidate is the
pair of its outpoint and the reason. -/
inductive DomainError where
  | invalidRequest (reason : String)
  | accountNotFound (accountId : AccountId)
  | scopeNotFound (scopeId : WalletScopeId)
  | missingAccountCapabilities (accountId : AccountId)
  | noEligibleScope (accountId : AccountId)
  | missingCapabilities (scopeId : WalletScopeId)
  | insufficientFunds
  | insufficientAsset (needed available : ℕ)
  | insufficientValue (needed available : ℕ)
  | noEligibleAssetCandidates (rejections : List (OutPoint × DomainError))
  | noCandidateAvailable
  | invalidScopeOwnership (scopeId : WalletScopeId) (accountId : AccountId)
  | utxoNotFound (outpoint : OutPoint)
  | utxoUnavailable (outpoint : OutPoint) (availability : Availability)
  | utxoPolicyBlocked (outpoint : OutPoint) (reason : String)
  | intentNotFound (operationId : OperationId)
  | intentNotPending (operationId : OperationId)
  | intentNotCommitted (operationId : OperationId)
  | intentConflict (operationId : OperationId)
  | operationNotFound (operationId : OperationId)
  | invalidOperationTransition (operationId : OperationId) (fromPhase toPhase : OperationPhase)
  | plannedInputsMismatch (operationId : OperationId)
  | observationConflict (outpoint : OutPoint) (onchainState : OnchainState)
  | corruptedState (reason : String)
  | storage (reason : String)

abbrev DomainResult (α : Type) := Except DomainError α

/-- A sequence succeeds when both parts do. -/
theorem bind_eq_ok {α β : Type} {r : DomainResult α} {f : α → DomainResult β} {b : β} :
    r >>= f = .ok b ↔ ∃ a, r = .ok a ∧ f a = .ok b := by
  cases r with
  | error e => simp [bind, Except.bind]
  | ok a => simp [bind, Except.bind]

end Txoscope
