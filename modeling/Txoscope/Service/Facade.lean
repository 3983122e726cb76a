import Txoscope.Core.AssetSelection
import Txoscope.Core.UtxoStatus

/-!
# The service

The methods of `TxoscopeService` as clients of a store. A method that reads the clock is given its
readings: `now i` is what the clock shows at the `i`-th point of the method where it may be read.
The generator of reservation identities is an argument as well.
-/

namespace Txoscope

/-! ## Requests and results -/

structure BootstrapAccountConfig where
  id : AccountId
  name : String
  capabilities : CapabilitySet

structure BootstrapScopeConfig where
  id : WalletScopeId
  accountId : AccountId
  descriptorRef : String
  derivationScope : String
  capabilities : CapabilitySet
  priority : UInt32

structure BootstrapConfig where
  owner : String
  accounts : List BootstrapAccountConfig
  scopes : List BootstrapScopeConfig

structure PlanExactOutpointsRequest where
  operationId : OperationId
  targetAccountId : AccountId
  selectedOutpoints : List OutPoint

structure ReserveSpecificUtxoRequest where
  operationId : OperationId
  targetAccountId : AccountId
  outpoint : OutPoint
  expiresAt : Option ℕ

structure ApplyExplicitSelectionRequest where
  operationId : OperationId
  selectedOutpoints : List OutPoint
  changeScopeId : WalletScopeId
  expiresAt : Option ℕ

structure ReserveManualUtxoRequest where
  targetAccountId : AccountId
  outpoint : OutPoint
  ttlSecs : ℕ

structure ReserveFirstAvailableManualUtxoRequest where
  targetAccountId : AccountId
  candidateOutpoints : List OutPoint
  ttlSecs : ℕ

/-- Asset facts supplied by the asset runtime. -/
structure AssetInputCandidate where
  outpoint : OutPoint
  assetAmount : ℕ

structure AssetSelectionRequest where
  targetAccountId : AccountId
  candidates : List AssetInputCandidate
  assetAmount : ℕ
  requiredValueSats : ℕ
  constraints : AssetSelectionConstraints

structure PlanAssetSelectionRequest where
  operationId : OperationId
  selection : AssetSelectionRequest

structure PlannedSelection where
  operationId : OperationId
  selectedOutpoints : List OutPoint
  changeScopeId : WalletScopeId
  expiresAt : Option ℕ
  deriving DecidableEq, Repr

structure ManualReservation where
  reservationId : OperationId
  outpoint : OutPoint
  expiresAt : ℕ
  deriving DecidableEq, Repr

structure ManagedUtxoInfo where
  accountId : AccountId
  valueSats : ℕ
  deriving DecidableEq, Repr

structure ReconcileSummary where
  tick : ℕ
  observedUtxos : ℕ
  actionsApplied : ℕ
  scope : ObservationScope
  deriving DecidableEq, Repr

/-- `PlannedSelection::from(OperationSelection)`. -/
def OperationSelection.planned (selection : OperationSelection) : PlannedSelection :=
  ⟨selection.operationId, selection.selectedOutpoints, selection.changeScopeId, selection.expiresAt⟩

/-- `PlannedExactOutpointsRequest::from(PlanExactOutpointsRequest)`. -/
def PlanExactOutpointsRequest.request (req : PlanExactOutpointsRequest) : SelectionRequest :=
  .plannedExactOutpoints req.operationId req.targetAccountId req.selectedOutpoints

/-- `PlannedSpecificOutpointRequest::from(ReserveSpecificUtxoRequest)`. -/
def ReserveSpecificUtxoRequest.request (req : ReserveSpecificUtxoRequest) : SelectionRequest :=
  .plannedSpecificOutpoint req.operationId req.targetAccountId req.outpoint req.expiresAt

namespace TxoscopeService

open Orchestrator

/-! ## Topology, observations and plans -/

def bootstrap (cfg : BootstrapConfig) : Client Unit := do
  Program.forEach (fun account => addAccount ⟨account.id, account.name, [], account.capabilities⟩)
    cfg.accounts
  Program.forEach (fun scope => addScope ⟨scope.id, scope.accountId, scope.descriptorRef,
    scope.derivationScope, scope.capabilities, scope.priority⟩) cfg.scopes

def reconcileSnapshot (snapshot : ObservationSnapshot) : Client ReconcileSummary := do
  Orchestrator.advanceTick 1
  let plan ← Orchestrator.reconcileSnapshot snapshot
  let tick ← StoreCall.currentTick.invoke
  return ⟨tick, snapshot.utxos.length, plan.actions.length, snapshot.scope⟩

section Owner

variable (owner : String)

def planExactOutpoints (req : PlanExactOutpointsRequest) : Client PlannedSelection := do
  let selection ← prepareOperation owner req.request
  return selection.planned

/-- The checks of `apply_explicit_selection` before anything is read. -/
def checkExplicit (outpoints : List OutPoint) : DomainResult Unit :=
  if outpoints.isEmpty then
    .error (.invalidRequest "explicit selection requires at least one outpoint")
  else checkUnique "explicit selection includes duplicate outpoint: " outpoints ∅

/-- The selection an explicit request stands for. -/
def ApplyExplicitSelectionRequest.selection (req : ApplyExplicitSelectionRequest) :
    OperationSelection where
  operationId := req.operationId
  selectedOutpoints := req.selectedOutpoints
  changeScopeId := req.changeScopeId
  effects := req.selectedOutpoints.map fun outpoint => ⟨outpoint, .plannedSelection⟩
  expiresAt := req.expiresAt

def applyExplicitSelection (req : ApplyExplicitSelectionRequest) : Client PlannedSelection := do
  Program.ofExcept (checkExplicit req.selectedOutpoints)
  match ← (StoreCall.getScope req.changeScopeId).invoke with
  | none => throw (.scopeNotFound req.changeScopeId)
  | some _ =>
    let selection := ApplyExplicitSelectionRequest.selection req
    applySelection owner selection
    return selection.planned

def reserveSpecificUtxo (req : ReserveSpecificUtxoRequest) : Client PlannedSelection := do
  let selection ← prepareOperation owner req.request
  return selection.planned

/-! ## Manual reservations -/

/-- Seven days. -/
def maxTtlSecs : ℕ := 7 * 24 * 60 * 60

/-- The expiry of a reservation made at `now`. -/
def reservationExpiry (now ttlSecs : ℕ) : ℕ := saturatingAdd now (min (max ttlSecs 1) maxTtlSecs)

def manualReservationFromSelection (selection : OperationSelection) :
    DomainResult ManualReservation :=
  match selection.selectedOutpoints.head? with
  | none =>
    .error (.corruptedState ("manual reservation selection " ++ selection.operationId.value ++
      " has no selected outpoint"))
  | some outpoint =>
    match selection.expiresAt with
    | none =>
      .error (.corruptedState ("manual reservation selection " ++ selection.operationId.value ++
        " is missing expires_at"))
    | some expiresAt => .ok ⟨selection.operationId, outpoint, expiresAt⟩

def reserveManualUtxo (generate : ℕ → OperationId) (now : ℕ) (req : ReserveManualUtxoRequest) :
    Client ManualReservation := do
  let selection ← prepareOperation owner (.manualReservationExact (generate now)
    req.targetAccountId req.outpoint (reservationExpiry now req.ttlSecs))
  Program.ofExcept (manualReservationFromSelection selection)

/-- The manual reservation still in `Selected` for an output, if any. -/
def getManualReservation (outpoint : OutPoint) : Client (Option ManualReservation) := do
  match ← (StoreCall.getLock outpoint).invoke with
  | none => return none
  | some lock =>
    if lock.purpose ≠ .manualReservation then return none
    else
      let operation ← (StoreCall.getOperation lock.operationId).invoke
      let utxo ← (StoreCall.getUtxo outpoint).invoke
      let selectedBinding := (utxo.bind (·.operationBinding)).any fun binding =>
        binding.operationId = lock.operationId ∧ binding.phase = .selected
      if !operation.any (·.phase = .selected) || !selectedBinding then return none
      else
        match lock.expiresAt with
        | none =>
          throw (.corruptedState ("manual reservation lock for outpoint " ++ outpoint.display ++
            " is missing expires_at"))
        | some expiresAt => return some ⟨lock.operationId, outpoint, expiresAt⟩

/-- The active manual reservation, expiring only leases still in `Selected`. -/
def getActiveManualReservation (now : ℕ) (outpoint : OutPoint) :
    Client (Option ManualReservation) := do
  match ← getManualReservation outpoint with
  | none => return none
  | some reservation =>
    if reservation.expiresAt ≤ now then
      let _ ← Orchestrator.releaseSelectedOperation reservation.reservationId
      return none
    else return some reservation

def expireStaleCandidateReservations (now : ℕ → ℕ) : List OutPoint → Client Unit
  | [] => return ()
  | outpoint :: outpoints => do
    let _ ← getActiveManualReservation (now 0) outpoint
    expireStaleCandidateReservations (fun i => now (i + 1)) outpoints

def reserveFirstAvailableManualUtxo (generate : ℕ → OperationId) (now : ℕ → ℕ)
    (req : ReserveFirstAvailableManualUtxoRequest) : Client (Option ManualReservation) := do
  expireStaleCandidateReservations now req.candidateOutpoints
  let now := now req.candidateOutpoints.length
  match ← (prepareOperation owner (.manualReservationFirstAvailable (generate now)
      req.targetAccountId req.candidateOutpoints (reservationExpiry now req.ttlSecs))).attempt with
  | .ok selection =>
    let reservation ← Program.ofExcept (manualReservationFromSelection selection)
    return some reservation
  | .error .noCandidateAvailable => return none
  | .error err => throw err

/-! ## Asset selection -/

/-- The scopes of the account with what an input of each may be used for. -/
structure AssetScopes where
  registered : List WalletScopeId
  eligible : List WalletScopeId
  fee : List WalletScopeId

/-- The loop over the scopes of the account. -/
def assetScopes (account : Account) (scopes : List WalletScope) : AssetScopes :=
  let registered := scopes.filter (·.accountId = account.id)
  let eligible := registered.filter (.reserveSupport ∈ ·.capabilities)
  let fee := eligible.filter (.feeSupport ∈ ·.capabilities)
  ⟨registered.map (·.id), eligible.map (·.id), fee.map (·.id)⟩

/-- Why a candidate cannot be used for fees, if it is one. -/
def feeRejection (account : Account) (scopes : AssetScopes) (allowFeeSupport : Bool)
    (candidate : AssetInputCandidate) (scopeId : WalletScopeId) : Option DomainError :=
  if candidate.assetAmount ≠ 0 then none
  else if !allowFeeSupport then
    some (.utxoPolicyBlocked candidate.outpoint "fee-support inputs are disabled")
  else if .feeSupport ∉ account.capabilities then some (.missingAccountCapabilities account.id)
  else if scopeId ∉ scopes.fee then some (.missingCapabilities scopeId)
  else none

/-- A candidate with its value, or the reason why it is rejected. -/
def assessStatus (req : AssetSelectionRequest) (account : Account) (scopes : AssetScopes)
    (candidate : AssetInputCandidate) : Option UtxoStatus → DomainResult AssetCandidate
  | none => .error (.utxoNotFound candidate.outpoint)
  | some status =>
    if status.accountId ≠ req.targetAccountId then
      .error (.utxoPolicyBlocked candidate.outpoint ("input belongs to account " ++
        status.accountId.value ++ ", not requested account " ++ req.targetAccountId.value))
    else if status.scopeId ∉ scopes.eligible then
      if status.scopeId ∈ scopes.registered then .error (.missingCapabilities status.scopeId)
      else .error (.scopeNotFound status.scopeId)
    else
      match feeRejection account scopes req.constraints.allowFeeSupport candidate status.scopeId with
      | some reason => .error reason
      | none =>
        match status.unavailableReason with
        | some reason => .error reason
        | none => .ok ⟨candidate.outpoint, candidate.assetAmount, status.valueSats⟩

/-- The eligible candidates and the rejections, in the order of the request. -/
def assessCandidates (req : AssetSelectionRequest) (account : Account) (scopes : AssetScopes) :
    List AssetInputCandidate → Client (List AssetCandidate × List (OutPoint × DomainError))
  | [] => return ([], [])
  | candidate :: candidates => do
    let status ← Orchestrator.utxoStatus candidate.outpoint
    let (eligible, rejections) ← assessCandidates req account scopes candidates
    match assessStatus req account scopes candidate status with
    | .ok input => return (input :: eligible, rejections)
    | .error reason => return (eligible, (candidate.outpoint, reason) :: rejections)

/-- The rejection of the first exact outpoint that has one. -/
def rejectedExact (rejections : List (OutPoint × DomainError)) (outpoints : List OutPoint) :
    Option DomainError :=
  outpoints.findSome? fun outpoint => (rejections.find? (·.1 = outpoint)).map (·.2)

/-- The checks between the assessment of the candidates and the policy. -/
def checkRejections (constraints : AssetSelectionConstraints) (eligible : List AssetCandidate)
    (rejections : List (OutPoint × DomainError)) : DomainResult Unit :=
  match constraints.exactOutpoints with
  | some exact =>
    match rejectedExact rejections exact with
    | some reason => .error reason
    | none => .ok ()
  | none => if eligible.isEmpty then .error (.noEligibleAssetCandidates rejections) else .ok ()

/-- The checks of a preview on the request alone. -/
def checkAssetRequest (req : AssetSelectionRequest) : DomainResult Unit :=
  if req.assetAmount = 0 ∨ req.candidates.isEmpty then .error .insufficientFunds
  else AssetSelectionPolicy.validateInputs (req.candidates.map (·.outpoint)) req.assetAmount
    req.constraints

/-- The part of a preview after the clean-up: eligibility and the selection policy. -/
def selectAssets (req : AssetSelectionRequest) : Client (List OutPoint) := do
  match ← (StoreCall.getAccount req.targetAccountId).invoke with
  | none => throw (.accountNotFound req.targetAccountId)
  | some account =>
    if .reserveSupport ∉ account.capabilities then throw (.missingAccountCapabilities account.id)
    else
      let known ← SelectionContext.readScopes account.scopes
      let scopes := assetScopes account known
      if scopes.eligible.isEmpty &&
          !req.constraints.exactOutpoints.any (fun outpoints => !outpoints.isEmpty) then
        throw (.noEligibleScope account.id)
      else
        let (eligible, rejections) ← assessCandidates req account scopes req.candidates
        Program.ofExcept (checkRejections req.constraints eligible rejections)
        Program.ofExcept (AssetSelectionPolicy.select eligible req.assetAmount
          req.requiredValueSats req.constraints)

/-- Selects with the same selector as planning; expired manual reservations are cleaned up. -/
def previewAssetSelection (now : ℕ → ℕ) (req : AssetSelectionRequest) :
    Client (List OutPoint) := do
  Program.ofExcept (checkAssetRequest req)
  expireStaleCandidateReservations now (sortByText (req.candidates.map (·.outpoint)))
  selectAssets req

/-- The selection planned for the selected inputs. -/
def assetSelection (req : PlanAssetSelectionRequest) (selectedOutpoints : List OutPoint)
    (changeScopeId : WalletScopeId) : OperationSelection where
  operationId := req.operationId
  selectedOutpoints
  changeScopeId
  effects := selectedOutpoints.map fun outpoint =>
    ⟨outpoint, if req.selection.candidates.any fun candidate =>
        candidate.assetAmount = 0 ∧ candidate.outpoint = outpoint then .feeSupport
      else .plannedSelection⟩
  expiresAt := none

/-- Selects and persists the operation before returning any inputs. -/
def planAssetSelection (now : ℕ → ℕ) (req : PlanAssetSelectionRequest) :
    Client PlannedSelection := do
  let selectedOutpoints ← previewAssetSelection now req.selection
  match selectedOutpoints.head? with
  | none => throw .insufficientFunds
  | some first =>
    match ← (StoreCall.getUtxo first).invoke with
    | none => throw (.utxoNotFound first)
    | some utxo =>
      let selection := assetSelection req selectedOutpoints utxo.scopeId
      applySelection owner selection
      return selection.planned

end Owner

/-! ## Queries -/

def getPlannedSelection (operationId : OperationId) : Client (Option PlannedSelection) := do
  let intent ← (StoreCall.getIntent operationId).invoke
  return intent.map (·.selection.planned)

def utxoAccountId (outpoint : OutPoint) : Client (Option AccountId) := do
  let utxo ← (StoreCall.getUtxo outpoint).invoke
  return utxo.map (·.accountId)

def managedUtxo (outpoint : OutPoint) : Client (Option ManagedUtxoInfo) := do
  let utxo ← (StoreCall.getUtxo outpoint).invoke
  return utxo.map fun utxo => ⟨utxo.accountId, utxo.valueSats⟩

/-- The operation an output is bound to, in any phase. -/
def owningOperationIdForOutpoint (outpoint : OutPoint) : Client (Option OperationId) := do
  let utxo ← (StoreCall.getUtxo outpoint).invoke
  return (utxo.bind (·.operationBinding)).map (·.operationId)

/-- The operation an output is bound to, only while in `Selected`. -/
def selectedOperationIdForOutpoint (outpoint : OutPoint) : Client (Option OperationId) := do
  let utxo ← (StoreCall.getUtxo outpoint).invoke
  return ((utxo.bind (·.operationBinding)).filter (·.phase = .selected)).map (·.operationId)

def isOutpointSpent (outpoint : OutPoint) : Client Bool := do
  let utxo ← (StoreCall.getUtxo outpoint).invoke
  return utxo.any (·.onchainState = .spent)

def operationHasExpiry (operationId : OperationId) : Client Bool := do
  let operation ← (StoreCall.getOperation operationId).invoke
  return (operation.bind (·.expiresAt)).isSome

/-! ## Methods -/

/-- A call of a method that writes, with its arguments. -/
inductive Method where
  | bootstrap (cfg : BootstrapConfig)
  | reconcileSnapshot (snapshot : ObservationSnapshot)
  | planExactOutpoints (req : PlanExactOutpointsRequest)
  | applyExplicitSelection (req : ApplyExplicitSelectionRequest)
  | reserveSpecificUtxo (req : ReserveSpecificUtxoRequest)
  | reserveManualUtxo (req : ReserveManualUtxoRequest)
  | reserveFirstAvailableManualUtxo (req : ReserveFirstAvailableManualUtxoRequest)
  | getActiveManualReservation (outpoint : OutPoint)
  | previewAssetSelection (req : AssetSelectionRequest)
  | planAssetSelection (req : PlanAssetSelectionRequest)
  | releaseOperation (operationId : OperationId)
  | completeOperation (operationId : OperationId) (completedPhase : OperationPhase)
      (actualOutpoints : List OutPoint)
  | cleanupStaleReservations (maxAge : ℕ)

/-- A method as a client that drops what the method returns. -/
def Method.program (owner : String) (generate : ℕ → OperationId) (now : ℕ → ℕ) :
    Method → Client Unit
  | bootstrap cfg => TxoscopeService.bootstrap cfg
  | reconcileSnapshot snapshot => do let _ ← TxoscopeService.reconcileSnapshot snapshot
  | planExactOutpoints req => do let _ ← TxoscopeService.planExactOutpoints owner req
  | applyExplicitSelection req => do let _ ← TxoscopeService.applyExplicitSelection owner req
  | reserveSpecificUtxo req => do let _ ← TxoscopeService.reserveSpecificUtxo owner req
  | reserveManualUtxo req => do
    let _ ← TxoscopeService.reserveManualUtxo owner generate (now 0) req
  | reserveFirstAvailableManualUtxo req => do
    let _ ← TxoscopeService.reserveFirstAvailableManualUtxo owner generate now req
  | getActiveManualReservation outpoint => do
    let _ ← TxoscopeService.getActiveManualReservation (now 0) outpoint
  | previewAssetSelection req => do let _ ← TxoscopeService.previewAssetSelection now req
  | planAssetSelection req => do let _ ← TxoscopeService.planAssetSelection owner now req
  | releaseOperation id => do let _ ← Orchestrator.releaseOperation id
  | completeOperation id phase outpoints => do
    let _ ← Orchestrator.completeOperation id phase outpoints
  | cleanupStaleReservations maxAge => do
    let _ ← Orchestrator.cleanupStaleReservations maxAge

/-- A call of a method that only reads, with its arguments. -/
inductive Query where
  | getPlannedSelection (operationId : OperationId)
  | verifyPlannedInputs (operationId : OperationId) (actualOutpoints : List OutPoint)
  | getManualReservation (outpoint : OutPoint)
  | utxoAccountId (outpoint : OutPoint)
  | isOutpointSelectable (outpoint : OutPoint)
  | utxoStatus (outpoint : OutPoint)
  | managedUtxo (outpoint : OutPoint)
  | owningOperationIdForOutpoint (outpoint : OutPoint)
  | selectedOperationIdForOutpoint (outpoint : OutPoint)
  | isOutpointSpent (outpoint : OutPoint)
  | operationHasExpiry (operationId : OperationId)

/-- A query as a client that drops what the query returns. -/
def Query.program : Query → Client Unit
  | getPlannedSelection id => do let _ ← TxoscopeService.getPlannedSelection id
  | verifyPlannedInputs id outpoints => Orchestrator.verifyPlannedInputs id outpoints
  | getManualReservation outpoint => do let _ ← TxoscopeService.getManualReservation outpoint
  | utxoAccountId outpoint => do let _ ← TxoscopeService.utxoAccountId outpoint
  | isOutpointSelectable outpoint => do let _ ← Orchestrator.isOutpointSelectable outpoint
  | utxoStatus outpoint => do let _ ← Orchestrator.utxoStatus outpoint
  | managedUtxo outpoint => do let _ ← TxoscopeService.managedUtxo outpoint
  | owningOperationIdForOutpoint outpoint => do
    let _ ← TxoscopeService.owningOperationIdForOutpoint outpoint
  | selectedOperationIdForOutpoint outpoint => do
    let _ ← TxoscopeService.selectedOperationIdForOutpoint outpoint
  | isOutpointSpent outpoint => do let _ ← TxoscopeService.isOutpointSpent outpoint
  | operationHasExpiry id => do let _ ← TxoscopeService.operationHasExpiry id

end TxoscopeService

end Txoscope
