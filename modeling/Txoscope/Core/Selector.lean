import Mathlib.Data.List.Sort
import Txoscope.Core.StateStore

/-!
# Requests and selectors

A `SelectionRequest` becomes one `OperationRequest`, and a selector turns the request into inputs
by reading the store. Every read is a call of its own.
-/

namespace Txoscope

/-! ## Requests -/

inductive InputSelectionSpec where
  | targetValue (amountSats : ℕ)
  | exactOutpoints (outpoints : List OutPoint)
  | firstSelectable (candidates : List OutPoint)
  deriving DecidableEq, Repr

/-- A non-empty list of exact outpoints, which is selected from even without an eligible scope. -/
def InputSelectionSpec.isExact : InputSelectionSpec → Bool
  | .exactOutpoints outpoints => !outpoints.isEmpty
  | _ => false

inductive OperationPurpose where
  | btcSend
  | plannedSelection
  | manualReservation
  deriving DecidableEq, Repr

/-- `LockPurpose::from(OperationPurpose)`. -/
def OperationPurpose.lockPurpose : OperationPurpose → LockPurpose
  | btcSend => .btcSend
  | plannedSelection => .plannedSelection
  | manualReservation => .manualReservation

structure InputSelectionRequest where
  accountId : AccountId
  spec : InputSelectionSpec
  requiredCapabilities : CapabilitySet

structure SelectionLockPolicy where
  purpose : OperationPurpose
  expiresAt : Option ℕ

def SelectionLockPolicy.lockPurpose (locking : SelectionLockPolicy) : LockPurpose :=
  locking.purpose.lockPurpose

structure OperationRequest where
  operationId : OperationId
  selection : InputSelectionRequest
  locking : SelectionLockPolicy

structure SelectedInputs where
  outpoints : List OutPoint
  changeScopeId : WalletScopeId

/-- `OperationSelection::from_request`. -/
def OperationSelection.fromRequest (req : OperationRequest) (inputs : SelectedInputs) :
    OperationSelection where
  operationId := req.operationId
  selectedOutpoints := inputs.outpoints
  changeScopeId := inputs.changeScopeId
  effects := inputs.outpoints.map fun outpoint => ⟨outpoint, req.locking.lockPurpose⟩
  expiresAt := req.locking.expiresAt

inductive SelectionRequest where
  | btcSend (operationId : OperationId) (accountId : AccountId) (amountSats : ℕ)
  | plannedExactOutpoints (operationId : OperationId) (accountId : AccountId)
      (outpoints : List OutPoint)
  | plannedSpecificOutpoint (operationId : OperationId) (accountId : AccountId)
      (outpoint : OutPoint) (expiresAt : Option ℕ)
  | manualReservationExact (reservationId : OperationId) (accountId : AccountId)
      (outpoint : OutPoint) (expiresAt : ℕ)
  | manualReservationFirstAvailable (reservationId : OperationId) (accountId : AccountId)
      (candidateOutpoints : List OutPoint) (expiresAt : ℕ)

/-- Sorts outpoints by their text. -/
def sortByText (outpoints : List OutPoint) : List OutPoint :=
  outpoints.insertionSort fun a b => a.display ≤ b.display

def SelectionRequest.intoOperationRequest : SelectionRequest → OperationRequest
  | btcSend operationId accountId amountSats =>
    ⟨operationId, ⟨accountId, .targetValue amountSats, LockPurpose.btcSend.requiredCapabilities⟩,
      ⟨.btcSend, none⟩⟩
  | plannedExactOutpoints operationId accountId outpoints =>
    ⟨operationId,
      ⟨accountId, .exactOutpoints outpoints, LockPurpose.plannedSelection.requiredCapabilities⟩,
      ⟨.plannedSelection, none⟩⟩
  | plannedSpecificOutpoint operationId accountId outpoint expiresAt =>
    ⟨operationId,
      ⟨accountId, .exactOutpoints [outpoint], LockPurpose.plannedSelection.requiredCapabilities⟩,
      ⟨.plannedSelection, expiresAt⟩⟩
  | manualReservationExact reservationId accountId outpoint expiresAt =>
    ⟨reservationId,
      ⟨accountId, .exactOutpoints [outpoint], LockPurpose.manualReservation.requiredCapabilities⟩,
      ⟨.manualReservation, some expiresAt⟩⟩
  | manualReservationFirstAvailable reservationId accountId candidateOutpoints expiresAt =>
    ⟨reservationId,
      ⟨accountId, .firstSelectable (sortByText candidateOutpoints),
        LockPurpose.manualReservation.requiredCapabilities⟩,
      ⟨.manualReservation, some expiresAt⟩⟩

/-- The operation a request is made for. -/
def SelectionRequest.operationId (req : SelectionRequest) : OperationId :=
  req.intoOperationRequest.operationId

/-! ## The selection context -/

structure SelectionContext where
  accountId : AccountId
  accountScopeIds : List WalletScopeId
  /-- Scopes belonging to the account that each satisfy all request capabilities. -/
  eligibleScopeIds : List WalletScopeId

/-- The first scope of least priority. -/
def preferScope : List WalletScope → Option WalletScope
  | [] => none
  | scope :: scopes =>
    some (scopes.foldl (fun best s => if s.priority < best.priority then s else best) scope)

namespace SelectionContext

def isPolicySpendable (utxo : ManagedUtxo) : Client Bool := do
  if utxo.isPolicySpendable then
    let lock ← (StoreCall.getLock utxo.outpoint).invoke
    return lock.isNone
  else return false

/-- The loop of `selectable_utxos`. -/
def selectableAmong (ctx : SelectionContext) : List ManagedUtxo → Client (List OutPoint)
  | [] => return []
  | utxo :: utxos => do
    if utxo.accountId ≠ ctx.accountId then ctx.selectableAmong utxos
    else if utxo.scopeId ∉ ctx.eligibleScopeIds then ctx.selectableAmong utxos
    else if ← isPolicySpendable utxo then
      let selected ← ctx.selectableAmong utxos
      return utxo.outpoint :: selected
    else ctx.selectableAmong utxos

def selectableUtxos (ctx : SelectionContext) : Client (List OutPoint) := do
  let utxos ← StoreCall.listUtxos.invoke
  ctx.selectableAmong utxos

/-- The scopes among `scopeIds` that exist. -/
def readScopes : List WalletScopeId → Client (List WalletScope)
  | [] => return []
  | scopeId :: scopeIds => do
    let scope ← (StoreCall.getScope scopeId).invoke
    let scopes ← readScopes scopeIds
    return scope.toList ++ scopes

def preferredScope (ctx : SelectionContext) : Client WalletScope := do
  let scopes ← readScopes ctx.eligibleScopeIds
  match preferScope scopes with
  | some scope => return scope
  | none => throw (.noEligibleScope ctx.accountId)

def isSelectableCandidate (ctx : SelectionContext) (outpoint : OutPoint) : Client Bool := do
  match ← (StoreCall.getUtxo outpoint).invoke with
  | none => return false
  | some utxo =>
    if utxo.accountId = ctx.accountId ∧ utxo.scopeId ∈ ctx.eligibleScopeIds then
      isPolicySpendable utxo
    else return false

def requireSelectableCandidate (ctx : SelectionContext) (outpoint : OutPoint) : Client Unit := do
  match ← (StoreCall.getUtxo outpoint).invoke with
  | none => throw (.utxoNotFound outpoint)
  | some utxo =>
    if utxo.accountId ≠ ctx.accountId then throw (.accountNotFound ctx.accountId)
    else if utxo.scopeId ∉ ctx.eligibleScopeIds then
      if utxo.scopeId ∈ ctx.accountScopeIds then
        let scope ← (StoreCall.getScope utxo.scopeId).invoke
        if scope.any (·.accountId = ctx.accountId) then
          throw (.missingCapabilities utxo.scopeId)
        else throw (.scopeNotFound utxo.scopeId)
      else throw (.scopeNotFound utxo.scopeId)
    else if utxo.availability ≠ .selectable then
      throw (.utxoUnavailable outpoint utxo.availability)
    else if ← isPolicySpendable utxo then return ()
    else
      let lock ← (StoreCall.getLock outpoint).invoke
      throw (.utxoPolicyBlocked outpoint
        ("utxo is not safely spendable: onchain_state=" ++ utxo.onchainState.debug ++
          ", conflict=" ++ toString utxo.observationConflict.isSome ++ ", lock_present=" ++
          toString lock.isSome))

end SelectionContext

/-! ## The selectors -/

namespace SelectionSortPolicy

def roleWeight : UtxoRole → ℕ
  | .spendPreferred => 0
  | .general => 1
  | .consolidationCandidate => 2
  | _ => 10

/-- The key of a candidate of a target value; the other two components are constant. -/
def selectionSortKey (utxo : ManagedUtxo) : ℕ × ℕ := (utxo.valueSats, roleWeight utxo.role)

/-- The lexicographic order of keys. -/
def keyLe (a b : ℕ × ℕ) : Bool := a.1 < b.1 ∨ (a.1 = b.1 ∧ a.2 ≤ b.2)

/-- The candidates with their keys, as they are read. -/
def readKeyed : List OutPoint → Client (List ((ℕ × ℕ) × OutPoint))
  | [] => return []
  | outpoint :: outpoints => do
    match ← (StoreCall.getUtxo outpoint).invoke with
    | none =>
      throw (.corruptedState ("selector candidate missing managed utxo: " ++ outpoint.display))
    | some utxo =>
      let keyed ← readKeyed outpoints
      return (selectionSortKey utxo, outpoint) :: keyed

def sortCandidateIds (candidates : List OutPoint) : Client (List OutPoint) := do
  let keyed ← readKeyed candidates
  return (keyed.insertionSort fun a b => keyLe a.1 b.1).map (·.2)

/-- Takes candidates until the saturating sum reaches `target`. -/
def accumulateByValue (target : ℕ) : List OutPoint → ℕ → Client (Option (List OutPoint))
  | [], _ => return none
  | outpoint :: outpoints, acc => do
    match ← (StoreCall.getUtxo outpoint).invoke with
    | none =>
      throw (.corruptedState ("candidate disappeared during accumulation: " ++ outpoint.display))
    | some candidate =>
      let acc := saturatingAdd acc candidate.valueSats
      if acc ≥ target then return some [outpoint]
      else
        let rest ← accumulateByValue target outpoints acc
        return rest.map (outpoint :: ·)

end SelectionSortPolicy

/-- `TargetValueSelector::select`. -/
def targetValueSelect (ctx : SelectionContext) (amountSats : ℕ) : Client SelectedInputs := do
  let changeScope ← ctx.preferredScope
  let candidates ← ctx.selectableUtxos
  let candidates ← SelectionSortPolicy.sortCandidateIds candidates
  match ← SelectionSortPolicy.accumulateByValue amountSats candidates 0 with
  | none => throw .insufficientFunds
  | some selected => return ⟨selected, changeScope.id⟩

/-- The first selectable candidate. -/
def firstSelectable (ctx : SelectionContext) : List OutPoint → Client (Option OutPoint)
  | [] => return none
  | outpoint :: outpoints => do
    if ← ctx.isSelectableCandidate outpoint then return some outpoint
    else firstSelectable ctx outpoints

/-- The scope of the first input receives the change. -/
def withChangeScope (outpoints : List OutPoint) : Client SelectedInputs := do
  match outpoints with
  | [] => throw (.corruptedState "selector returned no inputs")
  | first :: _ =>
    match ← (StoreCall.getUtxo first).invoke with
    | none => throw (.utxoNotFound first)
    | some utxo => return ⟨outpoints, utxo.scopeId⟩

/-- `SelectorRegistry::selector_for` with the two selectors. -/
def selectInputs (ctx : SelectionContext) : InputSelectionSpec → Client SelectedInputs
  | .targetValue amountSats => targetValueSelect ctx amountSats
  | .exactOutpoints outpoints => do
    Program.forEach ctx.requireSelectableCandidate outpoints
    withChangeScope outpoints
  | .firstSelectable candidates => do
    match ← firstSelectable ctx candidates with
    | none => throw .noCandidateAvailable
    | some selected => withChangeScope [selected]

end Txoscope
