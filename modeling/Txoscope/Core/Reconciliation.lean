import Txoscope.Core.StateStore

/-!
# The reconciliation planner

`plan` compares a snapshot with the managed outputs as they were read and lists the actions that
bring the records in line with what was observed. Each observation is planned on its own against
the output as it was read; a full snapshot also marks the managed outputs it leaves out.
-/

namespace Txoscope

namespace ReconciliationPlanner

/-- The text of what an unspent observation contradicts, if anything. -/
def observedMismatchMessage (managed : ManagedUtxo) (observed : ObservedUtxo) : Option String :=
  let mismatches :=
    (if managed.valueSats ≠ observed.valueSats then
      ["value_sats(local=" ++ Nat.repr managed.valueSats ++ ", observed=" ++
        Nat.repr observed.valueSats ++ ")"]
    else []) ++
    (if managed.accountId ≠ observed.accountId then
      ["account_id(local=" ++ managed.accountId.value ++ ", observed=" ++
        observed.accountId.value ++ ")"]
    else []) ++
    (if managed.scopeId ≠ observed.scopeId then
      ["scope_id(local=" ++ managed.scopeId.value ++ ", observed=" ++
        observed.scopeId.value ++ ")"]
    else [])
  if mismatches.isEmpty then none
  else some ("Observed metadata mismatch: " ++ String.intercalate ", " mismatches)

/-- The availability an unspent observation restores, if it changes. -/
def restoredUnspentAvailability (managed : ManagedUtxo) (observed : ObservedUtxo)
    (hasMismatch : Bool) : Option Availability :=
  if managed.onchainState = .spent then none
  else if managed.onchainState = .spendingInFlight then
    -- unspent observations can lag a local broadcast
    if managed.availability ≠ .blockedByL2 then some .blockedByL2 else none
  else if managed.operationBinding.isSome then
    if managed.availability = .recovering then some .reserved else none
  else if hasMismatch then
    if managed.availability ≠ .blockedByPolicy then some .blockedByPolicy else none
  else
    let desired := observed.confirmation.availability
    let canRestore := managed.availability = .recovering ∨
      managed.availability = .blockedByPolicy ∨ managed.availability = .selectable
    if canRestore ∧ managed.availability ≠ desired then some desired else none

/-- The actions of an observation of a managed output. -/
def planManaged (timestamp : ℕ) (managed : ManagedUtxo) (observed : ObservedUtxo) :
    List ReconciliationAction :=
  match observed.spendStatus with
  | .spent spendingTxid =>
    if managed.onchainState ≠ .spent then
      (if managed.availability = .reserved then
        [.reportConflict managed.outpoint ("Reserved UTXO spent by " ++ spendingTxid) timestamp]
      else []) ++ [.markSpent managed.outpoint spendingTxid]
    else []
  | .missing =>
    if managed.onchainState ≠ .spent then
      (if managed.availability = .reserved then
        [.reportConflict managed.outpoint "Reserved UTXO explicitly reported as missing" timestamp]
      else []) ++ [.markMissing managed.outpoint]
    else []
  | .unspent =>
    if managed.onchainState = .spent then []
    else
      let mismatch := observedMismatchMessage managed observed
      let newState := observed.confirmation.onchainState
      mismatch.toList.map (.reportConflict managed.outpoint · timestamp) ++
      (restoredUnspentAvailability managed observed mismatch.isSome).toList.map
        (.updateAvailability managed.outpoint) ++
      (if managed.observationConflict.isSome ∧ mismatch = none then
        [.clearConflict managed.outpoint]
      else []) ++
      (if managed.onchainState ≠ .spendingInFlight ∧ managed.onchainState ≠ newState then
        [.updateOnchainState managed.outpoint newState]
      else [])
  | .unknown => []

/-- The actions of one observation, given the output as it was read. -/
def planObserved (timestamp : ℕ) (managed : Option ManagedUtxo) (observed : ObservedUtxo) :
    List ReconciliationAction :=
  match managed with
  | none =>
    match observed.spendStatus with
    | .unspent => [.discoverNew observed]
    | _ => []
  | some managed => planManaged timestamp managed observed

/-- The actions for a managed output that a full snapshot leaves out. -/
def planUnmentioned (timestamp : ℕ) (managed : ManagedUtxo) : List ReconciliationAction :=
  if managed.onchainState ≠ .spent ∧ managed.availability ≠ .recovering ∧
      managed.onchainState ≠ .spendingInFlight then
    (if managed.availability = .reserved then
      [.reportConflict managed.outpoint "Reserved UTXO missing from full snapshot" timestamp]
    else []) ++ [.markMissing managed.outpoint]
  else []

/-- The plan for the managed outputs `managedUtxos`. -/
def planFor (managedUtxos : List ManagedUtxo) (snapshot : ObservationSnapshot) : ReconcilePlan where
  actions :=
    snapshot.utxos.flatMap (fun observed =>
      planObserved snapshot.timestamp
        (managedUtxos.find? fun u => u.outpoint = observed.outpoint) observed) ++
    (if snapshot.scope = .full then
      managedUtxos.flatMap fun managed =>
        if snapshot.utxos.any (fun o => o.outpoint = managed.outpoint) then []
        else planUnmentioned snapshot.timestamp managed
    else [])

/-- `ReconciliationPlanner::plan`: one read of the managed outputs. -/
def plan (snapshot : ObservationSnapshot) : Client ReconcilePlan := do
  let managedUtxos ← StoreCall.listUtxos.invoke
  return planFor managedUtxos snapshot

end ReconciliationPlanner

end Txoscope
