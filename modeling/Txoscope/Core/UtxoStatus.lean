import Txoscope.Core.Calls

/-!
# The status of an output

The read-only report on a managed output and its lock. It gives a reason exactly when the output
cannot be locked.
-/

namespace Txoscope

/-- The persisted lock, distinct from the binding of the output. -/
structure UtxoLockStatus where
  operationId : OperationId
  purpose : LockPurpose
  expiresAt : Option ℕ
  deriving DecidableEq, Repr

structure UtxoStatus where
  outpoint : OutPoint
  accountId : AccountId
  scopeId : WalletScopeId
  valueSats : ℕ
  onchainState : OnchainState
  availability : Availability
  operation : Option OperationBinding
  lock : Option UtxoLockStatus
  unavailableReason : Option DomainError

namespace UtxoStatus

def isSelectable (status : UtxoStatus) : Bool := status.unavailableReason.isNone

/-- The primary reason an output cannot be locked. -/
def reasonText (utxo : ManagedUtxo) (lockPresent : Bool) : String :=
  match utxo.operationBinding with
  | some binding =>
    "input is owned by operation " ++ binding.operationId.value ++ " (" ++ binding.phase.debug ++ ")"
  | none =>
    if lockPresent then "input has an active lock"
    else
      match utxo.observationConflict with
      | some conflict => "input has conflicting observations: " ++ conflict.message
      | none =>
        "input is not spendable (availability: " ++ utxo.availability.debug ++
          ", on-chain state: " ++ utxo.onchainState.debug ++ ")"

def fromRecords (utxo : ManagedUtxo) (lock : Option OperationLock) : UtxoStatus where
  outpoint := utxo.outpoint
  accountId := utxo.accountId
  scopeId := utxo.scopeId
  valueSats := utxo.valueSats
  onchainState := utxo.onchainState
  availability := utxo.availability
  operation := utxo.operationBinding
  lock := lock.map fun k => ⟨k.operationId, k.purpose, k.expiresAt⟩
  unavailableReason :=
    if utxo.canBeLocked lock.isSome then none
    else some (.utxoPolicyBlocked utxo.outpoint (reasonText utxo lock.isSome))

theorem isSelectable_fromRecords (utxo : ManagedUtxo) (lock : Option OperationLock) :
    (fromRecords utxo lock).isSelectable = utxo.canBeLocked lock.isSome := by
  unfold isSelectable fromRecords
  cases utxo.canBeLocked lock.isSome <;> rfl

end UtxoStatus

namespace Orchestrator

def utxoStatus (outpoint : OutPoint) : Client (Option UtxoStatus) := do
  match ← (StoreCall.getUtxo outpoint).invoke with
  | none => return none
  | some utxo =>
    let lock ← (StoreCall.getLock outpoint).invoke
    return some (UtxoStatus.fromRecords utxo lock)

theorem utxoStatus_onlyReads (outpoint : OutPoint) : OnlyReads (utxoStatus outpoint) := by
  unfold utxoStatus
  refine .bind (.invoke trivial) fun utxo => ?_
  cases utxo with
  | none => exact .pure _
  | some utxo => exact .bind (.invoke trivial) fun _ => .pure _

def isOutpointSelectable (outpoint : OutPoint) : Client Bool := do
  let status ← utxoStatus outpoint
  return status.any (·.isSelectable)

end Orchestrator

end Txoscope
