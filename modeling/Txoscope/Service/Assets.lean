import Txoscope.Memory.Reconciling
import Txoscope.Service.Leases

/-!
# Asset selection

A preview classifies the candidates and selects among the eligible ones; a plan selects by the same
preview, records and commits. What the preview accepts is authorised and free (`Eligible`), which
is all that the checks of a commit ask for, so the two always agree (`preview_agrees`).
-/

namespace Txoscope

/-! ## The policy -/

/-- An error that does not blame the request and does not report every candidate as rejected. -/
def DomainError.OfInputs : DomainError → Prop
  | invalidRequest _ | noEligibleAssetCandidates _ => False
  | _ => True

/-- An error that blames a candidate, or the candidates for what they sum up to. -/
structure DomainError.OfCandidates (e : DomainError) : Prop where
  ofInputs : e.OfInputs
  sane : e.Sane

namespace AssetSelectionPolicy

variable {candidates : List AssetCandidate} {targetAsset targetValue : ℕ}
  {constraints : AssetSelectionConstraints}

theorem checkAvailable_ofCandidates (outpoints : List OutPoint) :
    FailsOnly DomainError.OfCandidates (checkAvailable candidates outpoints) := by
  induction outpoints with
  | nil => exact .ok ()
  | cons o outpoints ih =>
    unfold checkAvailable
    split_ifs
    · exact .error ⟨trivial, trivial⟩
    · exact ih

theorem checkFeeSupport_ofCandidates (outpoints : List OutPoint) (allowFeeSupport : Bool) :
    FailsOnly DomainError.OfCandidates (checkFeeSupport outpoints allowFeeSupport candidates) := by
  induction candidates with
  | nil => exact .ok ()
  | cons candidate candidates ih =>
    unfold checkFeeSupport
    split_ifs
    · exact .error ⟨trivial, trivial⟩
    · exact ih

/-- What is among the candidates is found there. -/
theorem sumSelected_ok {outpoints : List OutPoint}
    (h : ∀ o ∈ outpoints, o ∈ candidates.map (·.outpoint)) (assets sats : ℕ) :
    ∃ sums, sumSelected candidates outpoints assets sats = .ok sums := by
  induction outpoints generalizing assets sats with
  | nil => exact ⟨_, rfl⟩
  | cons o outpoints ih =>
    rw [List.forall_mem_cons] at h
    obtain ⟨candidate, hmem, ho⟩ := List.mem_map.mp h.1
    have hfound : (candidates.find? (·.outpoint = o)).isSome = true :=
      List.find?_isSome.mpr ⟨candidate, hmem, decide_eq_true ho⟩
    obtain ⟨found, hfind⟩ := Option.isSome_iff_exists.mp hfound
    unfold sumSelected
    rw [hfind]
    exact ih h.2 _ _

theorem checkSums_ofCandidates {selected : List OutPoint}
    (h : ∀ o ∈ selected, o ∈ candidates.map (·.outpoint)) :
    FailsOnly DomainError.OfCandidates (checkSums candidates selected targetAsset targetValue) := by
  obtain ⟨sums, hsums⟩ := sumSelected_ok h 0 0
  unfold checkSums
  rw [hsums]
  refine FailsOnly.bind (.ok sums) fun sums => ?_
  dsimp only
  split_ifs
  · exact .error ⟨trivial, trivial⟩
  · exact .error ⟨trivial, trivial⟩
  · exact .ok _

/-- Once its inputs are valid, the policy only fails for want of inputs. -/
theorem select_ofCandidates
    (h : validateInputs (candidates.map (·.outpoint)) targetAsset constraints = .ok ()) :
    FailsOnly DomainError.OfCandidates (select candidates targetAsset targetValue constraints) := by
  unfold select
  rw [h]
  refine FailsOnly.bind (.ok ()) fun _ => ?_
  cases constraints.exactOutpoints with
  | none =>
    obtain ⟨taken, hsub, hperm⟩ := selectAutomatic_subperm targetAsset targetValue constraints
      (candidates.insertionSort fun a b => carrierLe a b = true)
    exact checkSums_ofCandidates fun o ho => hperm.subset (hsub.subset ho)
  | some outpoints =>
    refine (checkAvailable_ofCandidates _).bind_ok fun _ havailable => ?_
    refine (checkFeeSupport_ofCandidates _ _).bind fun _ => ?_
    exact checkSums_ofCandidates (checkAvailable_mem havailable)

end AssetSelectionPolicy

/-- The purpose of the lock on a selected candidate. -/
def AssetInputCandidate.purpose (candidate : AssetInputCandidate) : LockPurpose :=
  if candidate.assetAmount = 0 then .feeSupport else .plannedSelection

namespace TxoscopeService

/-! ## Scopes and candidates -/

theorem checkAssetRequest_ok {req : AssetSelectionRequest} (h : checkAssetRequest req = .ok ()) :
    AssetSelectionPolicy.validateInputs (req.candidates.map (·.outpoint)) req.assetAmount
      req.constraints = .ok () := by
  unfold checkAssetRequest at h
  split_ifs at h
  exact h

/-- The checks on the request alone refuse what asks for nothing or offers nothing, and blame the
request for the rest. -/
theorem checkAssetRequest_error (req : AssetSelectionRequest) :
    FailsOnly (fun e => (e = .insufficientFunds ∧ (req.assetAmount = 0 ∨ req.candidates = [])) ∨
      ∃ reason, e = .invalidRequest reason) (checkAssetRequest req) := by
  unfold checkAssetRequest AssetSelectionPolicy.validateInputs
  split_ifs with hnone hzero
  · exact .error (.inl ⟨rfl, by simpa using hnone⟩)
  · exact .error (.inl ⟨rfl, .inl hzero⟩)
  · unfold AssetSelectionPolicy.validateExact
    cases req.constraints.exactOutpoints with
    | none => exact .ok ()
    | some outpoints =>
      dsimp only
      split_ifs
      · exact .error (.inr ⟨_, rfl⟩)
      · exact .ok ()
      · exact .error (.inr ⟨_, rfl⟩)
  · exact .error (.inr ⟨_, rfl⟩)

theorem mem_assetScopes_eligible {account : Account} {known : List WalletScope}
    {id : WalletScopeId} : id ∈ (assetScopes account known).eligible ↔
      ∃ scope ∈ known, scope.id = id ∧ scope.accountId = account.id ∧
        .reserveSupport ∈ scope.capabilities := by
  unfold assetScopes
  simp only [List.mem_map, List.mem_filter, decide_eq_true_eq]
  constructor
  · rintro ⟨scope, ⟨⟨hknown, howner⟩, hreserve⟩, hid⟩
    exact ⟨scope, hknown, hid, howner, hreserve⟩
  · rintro ⟨scope, hknown, hid, howner, hreserve⟩
    exact ⟨scope, ⟨⟨hknown, howner⟩, hreserve⟩, hid⟩

theorem mem_assetScopes_fee {account : Account} {known : List WalletScope} {id : WalletScopeId} :
    id ∈ (assetScopes account known).fee ↔
      ∃ scope ∈ known, scope.id = id ∧ scope.accountId = account.id ∧
        .reserveSupport ∈ scope.capabilities ∧ .feeSupport ∈ scope.capabilities := by
  unfold assetScopes
  simp only [List.mem_map, List.mem_filter, decide_eq_true_eq]
  constructor
  · rintro ⟨scope, ⟨⟨⟨hknown, howner⟩, hreserve⟩, hfee⟩, hid⟩
    exact ⟨scope, hknown, hid, howner, hreserve, hfee⟩
  · rintro ⟨scope, hknown, hid, howner, hreserve, hfee⟩
    exact ⟨scope, ⟨⟨⟨hknown, howner⟩, hreserve⟩, hfee⟩, hid⟩

/-- No reason against an input for fees: it is none, or fees are supported throughout. -/
theorem feeRejection_eq_none_iff {account : Account} {scopes : AssetScopes} {allow : Bool}
    {candidate : AssetInputCandidate} {scopeId : WalletScopeId} :
    feeRejection account scopes allow candidate scopeId = none ↔
      (candidate.assetAmount = 0 → allow = true ∧ .feeSupport ∈ account.capabilities ∧
        scopeId ∈ scopes.fee) := by
  unfold feeRejection
  by_cases hamount : candidate.assetAmount = 0
  · by_cases hallow : allow = true
    · by_cases haccount : Capability.feeSupport ∈ account.capabilities
      · by_cases hscope : scopeId ∈ scopes.fee <;> simp [hamount, hallow, haccount, hscope]
      · simp [hamount, hallow, haccount]
    · simp [hamount, hallow]
  · simp [hamount]

theorem feeRejection_ofCandidates {account : Account} {scopes : AssetScopes} {allow : Bool}
    {candidate : AssetInputCandidate} {scopeId : WalletScopeId} {e : DomainError}
    (h : feeRejection account scopes allow candidate scopeId = some e) : e.OfCandidates := by
  unfold feeRejection at h
  split_ifs at h <;> cases h <;> exact ⟨trivial, trivial⟩

variable {req : AssetSelectionRequest} {account : Account} {scopes : AssetScopes}
  {candidate : AssetInputCandidate} {u : ManagedUtxo} {k : Option OperationLock}

/-- The report on an output accepts it for the account, in an eligible scope, unless it is
unavailable or fees are not supported. -/
theorem assessStatus_eq_ok_iff {input : AssetCandidate} :
    assessStatus req account scopes candidate (some (.fromRecords u k)) = .ok input ↔
      input = ⟨candidate.outpoint, candidate.assetAmount, u.valueSats⟩ ∧
        u.accountId = req.targetAccountId ∧ u.scopeId ∈ scopes.eligible ∧
        u.canBeLocked k.isSome = true ∧
        (candidate.assetAmount = 0 → req.constraints.allowFeeSupport = true ∧
          .feeSupport ∈ account.capabilities ∧ u.scopeId ∈ scopes.fee) := by
  unfold assessStatus
  dsimp only [UtxoStatus.fromRecords]
  have hnone : feeRejection account scopes req.constraints.allowFeeSupport candidate u.scopeId =
      none ↔ _ := feeRejection_eq_none_iff
  by_cases haccount : u.accountId = req.targetAccountId
  · rw [if_neg (not_not.mpr haccount)]
    by_cases hscope : u.scopeId ∈ scopes.eligible
    · rw [if_neg (not_not.mpr hscope), ← hnone]
      cases hfee : feeRejection account scopes req.constraints.allowFeeSupport candidate
          u.scopeId with
      | some reason => simp
      | none =>
        by_cases hlock : u.canBeLocked k.isSome = true
        · simp [hlock, haccount, hscope, eq_comm]
        · simp [hlock]
    · rw [if_pos hscope]
      split_ifs <;> simp [hscope]
  · simp [haccount]

theorem assessStatus_ofCandidates (u : Option ManagedUtxo) (k : Option OperationLock) :
    FailsOnly DomainError.OfCandidates
      (assessStatus req account scopes candidate (u.map fun u => .fromRecords u k)) := by
  cases u with
  | none => exact .error ⟨trivial, trivial⟩
  | some u =>
    unfold assessStatus
    dsimp only [Option.map_some, UtxoStatus.fromRecords]
    by_cases haccount : u.accountId = req.targetAccountId
    · rw [if_neg (not_not.mpr haccount)]
      by_cases hscope : u.scopeId ∈ scopes.eligible
      · rw [if_neg (not_not.mpr hscope)]
        cases hfee : feeRejection account scopes req.constraints.allowFeeSupport candidate
            u.scopeId with
        | some reason => exact .error (feeRejection_ofCandidates hfee)
        | none =>
          by_cases hlock : u.canBeLocked k.isSome = true
          · rw [if_pos hlock]
            exact .ok _
          · rw [if_neg hlock]
            exact .error ⟨trivial, trivial⟩
      · rw [if_pos hscope]
        split_ifs <;> exact .error ⟨trivial, trivial⟩
    · rw [if_pos haccount]
      exact .error ⟨trivial, trivial⟩

end TxoscopeService

namespace InMemoryStateStore

open TxoscopeService

variable {s : InMemoryStateStore} {req : AssetSelectionRequest}

theorem toOption_eq_some_iff {ε α : Type} {r : Except ε α} {a : α} :
    r.toOption = some a ↔ r = .ok a := by
  cases r <;> simp [Except.toOption]

/-! ## What a preview selects -/

/-- The candidate is an output of the target account, in a scope that the account owns and lists,
both may reserve, fees are supported throughout if it is an input for fees, and it is free. -/
structure Eligible (s : InMemoryStateStore) (req : AssetSelectionRequest)
    (candidate : AssetInputCandidate) : Prop where
  account : ∃ u account scope, s.getUtxo candidate.outpoint = some u ∧
    u.accountId = req.targetAccountId ∧ s.getAccount req.targetAccountId = some account ∧
    s.getScope u.scopeId = some scope ∧ scope.accountId = req.targetAccountId ∧
    u.scopeId ∈ account.scopes ∧ .reserveSupport ∈ account.capabilities ∧
    .reserveSupport ∈ scope.capabilities ∧
    (candidate.assetAmount = 0 → req.constraints.allowFeeSupport = true ∧
      .feeSupport ∈ account.capabilities ∧ .feeSupport ∈ scope.capabilities)
  selectable : (Program.run exec (Orchestrator.isOutpointSelectable candidate.outpoint) s).1 = .ok true

/-- What the service makes of one candidate. -/
def assess (s : InMemoryStateStore) (req : AssetSelectionRequest) (account : Account)
    (scopes : AssetScopes) (candidate : AssetInputCandidate) : DomainResult AssetCandidate :=
  assessStatus req account scopes candidate ((s.getUtxo candidate.outpoint).map fun u =>
    .fromRecords u (s.getLock candidate.outpoint))

theorem run_utxoStatus_eq (s : InMemoryStateStore) (o : OutPoint) :
    Program.run exec (Orchestrator.utxoStatus o) s =
      (.ok ((s.getUtxo o).map fun u => .fromRecords u (s.getLock o)), s) := by
  have hutxo : Program.run exec (StoreCall.getUtxo o).invoke s = (.ok (s.getUtxo o), s) := rfl
  unfold Orchestrator.utxoStatus
  rw [Program.run_bind_ok _ hutxo]
  cases s.getUtxo o with
  | none => rfl
  | some u => rfl

/-- The candidates that are rejected, each with the reason. -/
def rejected (s : InMemoryStateStore) (req : AssetSelectionRequest) (account : Account)
    (scopes : AssetScopes) (candidates : List AssetInputCandidate) :
    List (OutPoint × DomainError) :=
  candidates.filterMap fun candidate =>
    match s.assess req account scopes candidate with
    | .ok _ => none
    | .error reason => some (candidate.outpoint, reason)

theorem eval_assessCandidates (account : Account) (scopes : AssetScopes)
    (candidates : List AssetInputCandidate) :
    Program.eval exec (assessCandidates req account scopes candidates) s =
      .ok (candidates.filterMap fun candidate => (s.assess req account scopes candidate).toOption,
        s.rejected req account scopes candidates) := by
  induction candidates with
  | nil => rfl
  | cons candidate candidates ih =>
    unfold assessCandidates
    rw [Program.OnlyCalls.eval_bind reads_snd (Orchestrator.utxoStatus_onlyReads _),
      show Program.eval exec (Orchestrator.utxoStatus candidate.outpoint) s = _ from
        congrArg Prod.fst (run_utxoStatus_eq s candidate.outpoint)]
    change Program.eval exec (assessCandidates req account scopes candidates >>= _) s = _
    rw [Program.OnlyCalls.eval_bind reads_snd (assessCandidates_onlyReads _ _ _ _), ih]
    unfold rejected
    rw [List.filterMap_cons, List.filterMap_cons]
    change Program.eval exec (match s.assess req account scopes candidate with
      | .ok input => _
      | .error reason => _) s = _
    cases s.assess req account scopes candidate <;> rfl

/-- The eligible candidates are among those supplied, in their order. -/
theorem assessed_sublist (account : Account) (scopes : AssetScopes)
    (candidates : List AssetInputCandidate) :
    ((candidates.filterMap fun candidate =>
      (s.assess req account scopes candidate).toOption).map (·.outpoint)).Sublist
        (candidates.map (·.outpoint)) := by
  induction candidates with
  | nil => exact List.Sublist.slnil
  | cons candidate candidates ih =>
    rw [List.filterMap_cons, List.map_cons]
    cases ha : s.assess req account scopes candidate with
    | error reason => exact ih.cons _
    | ok input =>
      unfold assess at ha
      cases hu : s.getUtxo candidate.outpoint with
      | none =>
        rw [hu] at ha
        cases ha
      | some u =>
        rw [hu] at ha
        change (input.outpoint :: _).Sublist _
        rw [(assessStatus_eq_ok_iff.mp ha).1]
        exact ih.cons_cons _

/-- The scopes of an account as they are known to the store. -/
def scopesFor (s : InMemoryStateStore) (account : Account) : AssetScopes :=
  assetScopes account (account.scopes.filterMap s.getScope)

/-- What a preview selects in a state without expired leases. -/
def selectedAssets (s : InMemoryStateStore) (req : AssetSelectionRequest) :
    DomainResult (List OutPoint) :=
  match s.getAccount req.targetAccountId with
  | none => .error (.accountNotFound req.targetAccountId)
  | some account =>
    if .reserveSupport ∉ account.capabilities then .error (.missingAccountCapabilities account.id)
    else if (s.scopesFor account).eligible.isEmpty &&
        !req.constraints.exactOutpoints.any (fun outpoints => !outpoints.isEmpty) then
      .error (.noEligibleScope account.id)
    else do
      let eligible := req.candidates.filterMap fun candidate =>
        (s.assess req account (s.scopesFor account) candidate).toOption
      checkRejections req.constraints eligible
        (s.rejected req account (s.scopesFor account) req.candidates)
      AssetSelectionPolicy.select eligible req.assetAmount req.requiredValueSats req.constraints

theorem eval_selectAssets (s : InMemoryStateStore) (req : AssetSelectionRequest) :
    Program.eval exec (selectAssets req) s = s.selectedAssets req := by
  unfold selectAssets selectedAssets
  rw [eval_getAccount_bind]
  cases s.getAccount req.targetAccountId with
  | none => rfl
  | some account =>
    dsimp only
    by_cases hreserve : Capability.reserveSupport ∈ account.capabilities
    · rw [if_neg (not_not.mpr hreserve), if_neg (not_not.mpr hreserve),
        Program.OnlyCalls.eval_bind reads_snd (SelectionContext.readScopes_onlyReads _),
        eval_readScopes]
      change Program.eval exec (if ((s.scopesFor account).eligible.isEmpty &&
        !req.constraints.exactOutpoints.any fun outpoints => !outpoints.isEmpty) = true then _
          else _) s = _
      split_ifs
      · rfl
      · rw [Program.OnlyCalls.eval_bind reads_snd (assessCandidates_onlyReads _ _ _ _),
          eval_assessCandidates]
        change Program.eval exec (Program.ofExcept (checkRejections req.constraints _ _) >>= _) s = _
        rw [Program.OnlyCalls.eval_bind reads_snd (.ofExcept _)]
        rfl
    · rw [if_pos hreserve, if_pos hreserve]
      rfl

/-- The listed scopes that the store knows, by their ids. -/
theorem exists_known_iff (hk : s.WellKeyed) {ids : List WalletScopeId} {id : WalletScopeId}
    {P : WalletScope → Prop} : (∃ scope ∈ ids.filterMap s.getScope, scope.id = id ∧ P scope) ↔
      id ∈ ids ∧ ∃ scope, s.getScope id = some scope ∧ P scope := by
  constructor
  · rintro ⟨scope, hknown, rfl, hP⟩
    obtain ⟨id, hid, hscope⟩ := List.mem_filterMap.mp hknown
    rw [hk.scope id scope hscope]
    exact ⟨hid, scope, hscope, hP⟩
  · rintro ⟨hid, scope, hscope, hP⟩
    exact ⟨scope, List.mem_filterMap.mpr ⟨id, hid, hscope⟩, hk.scope id scope hscope, hP⟩

theorem mem_scopesFor_eligible (hk : s.WellKeyed) {account : Account} {id : WalletScopeId} :
    id ∈ (s.scopesFor account).eligible ↔ id ∈ account.scopes ∧ ∃ scope,
      s.getScope id = some scope ∧ scope.accountId = account.id ∧
        .reserveSupport ∈ scope.capabilities :=
  mem_assetScopes_eligible.trans (exists_known_iff hk)

theorem mem_scopesFor_fee (hk : s.WellKeyed) {account : Account} {id : WalletScopeId} :
    id ∈ (s.scopesFor account).fee ↔ id ∈ account.scopes ∧ ∃ scope,
      s.getScope id = some scope ∧ scope.accountId = account.id ∧
        .reserveSupport ∈ scope.capabilities ∧ .feeSupport ∈ scope.capabilities :=
  mem_assetScopes_fee.trans (exists_known_iff hk)

/-- What is assessed as eligible is authorised and free. -/
theorem assess_eligible (hk : s.WellKeyed) {account : Account} {candidate : AssetInputCandidate}
    {input : AssetCandidate} (ha : s.getAccount req.targetAccountId = some account)
    (hreserve : Capability.reserveSupport ∈ account.capabilities)
    (h : s.assess req account (s.scopesFor account) candidate = .ok input) :
    input.outpoint = candidate.outpoint ∧ s.Eligible req candidate := by
  unfold assess at h
  cases hu : s.getUtxo candidate.outpoint with
  | none =>
    rw [hu] at h
    cases h
  | some u =>
    rw [hu] at h
    obtain ⟨rfl, haccount, heligible, hlock, hfee⟩ := assessStatus_eq_ok_iff.mp h
    obtain ⟨hlisted, scope, hscope, howner, hcapable⟩ := (mem_scopesFor_eligible hk).mp heligible
    rw [hk.account _ account ha] at howner
    refine ⟨rfl, ⟨u, account, scope, hu, haccount, ha, hscope, howner, hlisted, hreserve,
      hcapable, fun hamount => ?_⟩, ?_⟩
    · obtain ⟨hallow, hfeeAccount, hfeeScope⟩ := hfee hamount
      obtain ⟨-, scope', hscope', -, -, hfeeCapable⟩ := (mem_scopesFor_fee hk).mp hfeeScope
      rw [hscope, Option.some.injEq] at hscope'
      exact ⟨hallow, hfeeAccount, hscope' ▸ hfeeCapable⟩
    · rw [run_isOutpointSelectable]
      unfold Cell.selectable cell
      rw [hu]
      exact congrArg Except.ok hlock

/-- What is selected are distinct eligible candidates, and at least one. -/
theorem selectedAssets_ok (hk : s.WellKeyed) {selected : List OutPoint}
    (h : s.selectedAssets req = .ok selected) : selected ≠ [] ∧ selected.Nodup ∧
      ∀ o ∈ selected, ∃ candidate ∈ req.candidates, candidate.outpoint = o ∧
        s.Eligible req candidate := by
  unfold selectedAssets at h
  cases ha : s.getAccount req.targetAccountId with
  | none =>
    rw [ha] at h
    cases h
  | some account =>
    rw [ha] at h
    dsimp only at h
    by_cases hreserve : Capability.reserveSupport ∈ account.capabilities
    · rw [if_neg (not_not.mpr hreserve)] at h
      split_ifs at h
      cases hc : checkRejections req.constraints (req.candidates.filterMap fun candidate =>
          (s.assess req account (s.scopesFor account) candidate).toOption)
          (s.rejected req account (s.scopesFor account) req.candidates) with
      | error e =>
        rw [hc] at h
        cases h
      | ok u =>
        rw [hc] at h
        obtain ⟨hne, hnd, hmem⟩ := AssetSelectionPolicy.select_ok h
        refine ⟨hne, hnd, fun o ho => ?_⟩
        obtain ⟨input, hinput, rfl⟩ := List.mem_map.mp (hmem o ho)
        obtain ⟨candidate, hcandidate, hassess⟩ := List.mem_filterMap.mp hinput
        obtain ⟨houtpoint, heligible⟩ :=
          assess_eligible hk ha hreserve (toOption_eq_some_iff.mp hassess)
        exact ⟨candidate, hcandidate, houtpoint.symm, heligible⟩
    · rw [if_pos hreserve] at h
      cases h

theorem checkRejections_ofCandidates {account : Account} {scopes : AssetScopes}
    {eligible : List AssetCandidate} {exact : List OutPoint}
    (hexact : req.constraints.exactOutpoints = some exact) :
    FailsOnly DomainError.OfCandidates (checkRejections req.constraints eligible
      (s.rejected req account scopes req.candidates)) := by
  unfold checkRejections
  rw [hexact]
  dsimp only
  cases hr : rejectedExact (s.rejected req account scopes req.candidates) exact with
  | none => exact .ok ()
  | some reason =>
    refine .error ?_
    obtain ⟨o, -, ho⟩ := List.exists_of_findSome?_eq_some hr
    obtain ⟨⟨o', reason'⟩, hfind, rfl⟩ := Option.map_eq_some_iff.mp ho
    obtain ⟨candidate, -, hc⟩ := List.mem_filterMap.mp (List.mem_of_find?_eq_some hfind)
    cases ha : s.assess req account scopes candidate with
    | ok input =>
      rw [ha] at hc
      cases hc
    | error reason =>
      rw [ha] at hc
      cases hc
      exact assessStatus_ofCandidates _ _ _ ha

/-- Where nothing is eligible, every candidate is rejected. -/
theorem rejected_outpoints {account : Account} {scopes : AssetScopes}
    (candidates : List AssetInputCandidate)
    (h : (candidates.filterMap fun candidate =>
      (s.assess req account scopes candidate).toOption).isEmpty = true) :
    (s.rejected req account scopes candidates).map (·.1) = candidates.map (·.outpoint) := by
  induction candidates with
  | nil => rfl
  | cons candidate candidates ih =>
    unfold rejected
    rw [List.filterMap_cons] at h ⊢
    cases ha : s.assess req account scopes candidate with
    | ok input =>
      rw [ha] at h
      cases h
    | error reason =>
      rw [ha] at h
      exact congrArg (candidate.outpoint :: ·) (ih h)

/-- A preview of a valid request fails for want of inputs, or reports every candidate. -/
theorem selectedAssets_error (hvalid : checkAssetRequest req = .ok ()) {e : DomainError}
    (h : s.selectedAssets req = .error e) :
    e.OfCandidates ∨ ∃ rejections, e = .noEligibleAssetCandidates rejections ∧
      rejections.map (·.1) = req.candidates.map (·.outpoint) := by
  unfold selectedAssets at h
  cases ha : s.getAccount req.targetAccountId with
  | none =>
    rw [ha] at h
    cases h
    exact .inl ⟨trivial, trivial⟩
  | some account =>
    rw [ha] at h
    dsimp only at h
    by_cases hreserve : Capability.reserveSupport ∈ account.capabilities
    · rw [if_neg (not_not.mpr hreserve)] at h
      split_ifs at h
      · cases h
        exact .inl ⟨trivial, trivial⟩
      · cases hc : checkRejections req.constraints (req.candidates.filterMap fun candidate =>
            (s.assess req account (s.scopesFor account) candidate).toOption)
            (s.rejected req account (s.scopesFor account) req.candidates) with
        | ok u =>
          rw [hc] at h
          obtain ⟨hamount, hnd, hexact⟩ :=
            AssetSelectionPolicy.validateInputs_eq_ok_iff.mp (checkAssetRequest_ok hvalid)
          refine .inl (AssetSelectionPolicy.select_ofCandidates ?_ e h)
          exact AssetSelectionPolicy.validateInputs_eq_ok_iff.mpr
            ⟨hamount, hnd.sublist (assessed_sublist _ _ _), hexact⟩
        | error e' =>
          rw [hc] at h
          cases h
          cases hexact : req.constraints.exactOutpoints with
          | some exact => exact .inl (checkRejections_ofCandidates hexact e hc)
          | none =>
            unfold checkRejections at hc
            rw [hexact] at hc
            dsimp only at hc
            split_ifs at hc with hempty
            cases hc
            exact .inr ⟨_, rfl, rejected_outpoints _ hempty⟩
    · rw [if_pos hreserve] at h
      cases h
      exact .inl ⟨trivial, trivial⟩

/-! ## Preview and plan -/

/-- A preview checks the request, expires the candidates and selects. -/
theorem run_previewAssetSelection (h : s.Sound) (now : ℕ → ℕ) (req : AssetSelectionRequest) :
    Program.run exec (previewAssetSelection now req) s =
      match checkAssetRequest req with
      | .error e => (.error e, s)
      | .ok () =>
        ((s.afterExpiry now (sortByText (req.candidates.map (·.outpoint)))).selectedAssets req,
          s.afterExpiry now (sortByText (req.candidates.map (·.outpoint)))) := by
  unfold previewAssetSelection
  cases checkAssetRequest req with
  | error e => rfl
  | ok u =>
    change Program.run exec (expireStaleCandidateReservations now _ >>= _) s = _
    rw [Program.run_bind_ok _ (run_expireStaleCandidateReservations h now _),
      Program.OnlyCalls.run_eq reads_snd (selectAssets_onlyReads req), eval_selectAssets]

/-- What a candidate is eligible for is granted by its account and scope. -/
theorem Eligible.grants {candidate : AssetInputCandidate} (h : s.Eligible req candidate)
    {u : ManagedUtxo} (hu : s.getUtxo candidate.outpoint = some u) :
    OperationSelection.Grants s.getAccount s.getScope u.accountId u.scopeId
      candidate.purpose.requiredCapabilities := by
  obtain ⟨u', account, scope, hu', haccount, ha, hs, howner, hlisted, hreserve, hscope, hfee⟩ :=
    h.account
  rw [hu, Option.some.injEq] at hu'
  subst hu'
  rw [haccount]
  refine ⟨account, scope, ha, hs, howner, hlisted, ?_, ?_⟩
  all_goals
    intro capability hcapability
    unfold AssetInputCandidate.purpose at hcapability
    split_ifs at hcapability with hamount
    · obtain ⟨-, hfeeAccount, hfeeScope⟩ := hfee hamount
      rcases Finset.mem_insert.mp hcapability with rfl | hcapability
      · assumption
      · rw [Finset.mem_singleton.mp hcapability]
        assumption
    · rw [Finset.mem_singleton.mp hcapability]
      assumption

/-- The effect on a selected candidate has the purpose of the candidate. -/
theorem assetSelection_effect {req : PlanAssetSelectionRequest} {selected : List OutPoint}
    {scopeId : WalletScopeId} (hnd : (req.selection.candidates.map (·.outpoint)).Nodup)
    {candidate : AssetInputCandidate} (hmem : candidate ∈ req.selection.candidates)
    {e : SelectionEffect} (he : e ∈ (assetSelection req selected scopeId).effects)
    (ho : candidate.outpoint = e.outpoint) : e.purpose = candidate.purpose := by
  obtain ⟨o, -, rfl⟩ := List.mem_map.mp he
  have ho : candidate.outpoint = o := ho
  unfold AssetInputCandidate.purpose
  dsimp only
  refine if_congr ?_ rfl rfl
  rw [List.any_eq_true]
  constructor
  · rintro ⟨candidate', hmem', h⟩
    obtain ⟨hamount, ho'⟩ := of_decide_eq_true h
    obtain rfl : candidate' = candidate :=
      List.inj_on_of_nodup_map hnd hmem' hmem (ho'.trans ho.symm)
    exact hamount
  · intro hamount
    exact ⟨candidate, hmem, decide_eq_true ⟨hamount, ho⟩⟩

theorem assetSelection_outpoints (req : PlanAssetSelectionRequest) (selected : List OutPoint)
    (scopeId : WalletScopeId) :
    (assetSelection req selected scopeId).effectOutpoints = selected := by
  unfold OperationSelection.effectOutpoints assetSelection
  rw [List.map_map]
  exact List.map_id _

/-- What a preview selects is ready to be committed. -/
theorem ready_assetSelection (hk : s.WellKeyed) {req : PlanAssetSelectionRequest}
    (hnd : (req.selection.candidates.map (·.outpoint)).Nodup) {selected : List OutPoint}
    (h : s.selectedAssets req.selection = .ok selected) {first : OutPoint}
    (hfirst : selected.head? = some first) {u : ManagedUtxo} (hu : s.getUtxo first = some u) :
    s.Ready (assetSelection req selected u.scopeId) := by
  obtain ⟨hne, hdistinct, heligible⟩ := selectedAssets_ok hk h
  have houtpoints := assetSelection_outpoints req selected u.scopeId
  refine ⟨⟨.of_effects houtpoints hne hdistinct, fun e he => ?_, ?_⟩, fun o ho => ?_⟩
  · have ho : e.outpoint ∈ selected := houtpoints ▸ List.mem_map.mpr ⟨e, he, rfl⟩
    obtain ⟨candidate, hmem, hcandidate, hin⟩ := heligible _ ho
    obtain ⟨v, -, -, hv, -⟩ := hin.account
    rw [assetSelection_effect hnd hmem he hcandidate, ← hcandidate]
    exact ⟨v, hv, hin.grants hv⟩
  · -- the change goes to the scope of the first input
    obtain ⟨candidate, -, rfl, hin⟩ := heligible first (List.mem_of_head? hfirst)
    obtain ⟨v, account, scope, hv, haccount, ha, hs, howner, hlisted, hreserve, hscope, -⟩ :=
      hin.account
    rw [hu, Option.some.injEq] at hv
    subst hv
    refine ⟨scope, hs, ?_⟩
    rw [hk.scope _ scope hs, howner]
    have hplanned : OperationSelection.Grants s.getAccount s.getScope req.selection.targetAccountId
        u.scopeId LockPurpose.plannedSelection.requiredCapabilities :=
      ⟨account, scope, ha, hs, howner, hlisted, Finset.singleton_subset_iff.mpr hreserve,
        Finset.singleton_subset_iff.mpr hscope⟩
    refine hplanned.mono (OperationSelection.changeCapabilities_subset fun e he => ?_)
    obtain ⟨o, -, rfl⟩ := List.mem_map.mp he
    dsimp only
    split_ifs <;> exact Finset.Subset.refl _
  · obtain ⟨candidate, -, rfl, hin⟩ := heligible o ho
    obtain ⟨v, -, -, hv, -⟩ := hin.account
    have hselectable := hin.selectable
    rw [run_isOutpointSelectable, Except.ok.injEq] at hselectable
    unfold Cell.selectable cell at hselectable
    rw [hv] at hselectable
    obtain ⟨hspendable, hlock⟩ := ManagedUtxo.canBeLocked_iff.mp hselectable
    rw [Option.isSome_eq_false_iff, Option.isNone_iff_eq_none] at hlock
    exact ⟨⟨v, hv, hspendable⟩, hlock⟩

/-- A preview that succeeds has selected in the state after the expiry, which it leaves. -/
theorem previewAssetSelection_ok (h : s.Sound) {now : ℕ → ℕ} {selected : List OutPoint}
    {t : InMemoryStateStore}
    (hpreview : Program.run exec (previewAssetSelection now req) s = (.ok selected, t)) :
    checkAssetRequest req = .ok () ∧ t = s.afterExpiry now (sortByText (req.candidates.map
      (·.outpoint))) ∧ t.selectedAssets req = .ok selected := by
  rw [run_previewAssetSelection h] at hpreview
  cases hc : checkAssetRequest req with
  | error e =>
    rw [hc] at hpreview
    cases hpreview
  | ok u =>
    rw [hc] at hpreview
    obtain ⟨hselected, rfl⟩ := Prod.mk.inj hpreview
    exact ⟨rfl, rfl, hselected⟩

/-- A plan for a new operation succeeds where its preview does, with the inputs of the preview. -/
theorem planAssetSelection_ok (h : s.Sound) (owner : String) {now : ℕ → ℕ}
    {req : PlanAssetSelectionRequest} (hi : s.getIntent req.operationId = none)
    (hop : s.getOperation req.operationId = none) {selected : List OutPoint}
    {t : InMemoryStateStore}
    (hpreview : Program.run exec (previewAssetSelection now req.selection) s = (.ok selected, t)) :
    ∃ scopeId s', Program.run exec (planAssetSelection owner now req) s =
        (.ok (assetSelection req selected scopeId).planned, s') ∧
      t.Prepared (assetSelection req selected scopeId) s' ∧
        ∀ e ∈ (assetSelection req selected scopeId).effects, ∃ k,
          s'.getLock e.outpoint = some k ∧ k.purpose = e.purpose := by
  obtain ⟨hcheck, ht, hselected⟩ := previewAssetSelection_ok h hpreview
  have hsound : t.Sound := ht ▸ h.releasing _
  have hi' : t.getIntent req.operationId = none := by
    rw [ht, show (s.afterExpiry now _).getIntent = s.getIntent from (releasing_frame _ s).1]
    exact hi
  have hop' : t.getOperation req.operationId = none :=
    ht ▸ getOperation_afterExpiry_of_none hop now _
  obtain ⟨-, hnd, -⟩ :=
    AssetSelectionPolicy.validateInputs_eq_ok_iff.mp (checkAssetRequest_ok hcheck)
  obtain ⟨hne, -, heligible⟩ := selectedAssets_ok hsound.keyed hselected
  obtain ⟨first, rest, rfl⟩ := List.exists_cons_of_ne_nil hne
  obtain ⟨candidate, -, hcandidate, hin⟩ := heligible first List.mem_cons_self
  obtain ⟨u, -, -, hu, -⟩ := hin.account
  rw [hcandidate] at hu
  have hready := ready_assetSelection hsound.keyed hnd hselected rfl hu
  obtain ⟨i, s₁, s', hpersist, hcommit, hprepared, hlocks⟩ :=
    hready.applySelection owner hi' hop'
  have hread : Program.run exec (StoreCall.getUtxo first).invoke t = (.ok (some u), t) :=
    congrArg (fun r => (Except.ok r, t)) hu
  have happly : Program.run exec (Orchestrator.applySelection owner
      (assetSelection req (first :: rest) u.scopeId)) t = (.ok (), s') := by
    unfold Orchestrator.applySelection
    exact (Program.run_bind_ok _ hpersist).trans hcommit
  refine ⟨u.scopeId, s', ?_, hprepared, fun e he => (hlocks e he).imp fun k hk => ⟨hk.1, hk.2.1⟩⟩
  unfold planAssetSelection
  rw [Program.run_bind_ok _ hpreview]
  dsimp only [List.head?_cons]
  rw [Program.run_bind_ok _ hread]
  dsimp only
  rw [Program.run_bind_ok _ happly]
  rfl

/-- Preview and plan agree: a plan for a new operation returns the inputs or the error of the
preview. What is selected are eligible candidates, which the plan locks each for its purpose, and
where no candidate is eligible every one is reported, in order. -/
theorem preview_agrees {snapshots : ObservationSnapshot → Prop} (h : ServiceRun snapshots empty s)
    (owner : String) (now : ℕ → ℕ) (req : PlanAssetSelectionRequest)
    (hi : s.getIntent req.operationId = none) (hop : s.getOperation req.operationId = none) :
    (∀ selected, (Program.run exec (previewAssetSelection now req.selection) s).1 = .ok selected ↔
      ∃ planned, (Program.run exec (planAssetSelection owner now req) s).1 = .ok planned ∧
        planned.selectedOutpoints = selected) ∧
    (∀ e, (Program.run exec (previewAssetSelection now req.selection) s).1 = .error e ↔
      (Program.run exec (planAssetSelection owner now req) s).1 = .error e) ∧
    (∀ selected t, Program.run exec (previewAssetSelection now req.selection) s = (.ok selected, t) →
      ∀ o ∈ selected, ∃ candidate ∈ req.selection.candidates, candidate.outpoint = o ∧
        t.Eligible req.selection candidate ∧
        ∃ k, (Program.run exec (planAssetSelection owner now req) s).2.getLock o = some k ∧
          k.operationId = req.operationId ∧
          k.purpose = if candidate.assetAmount = 0 then .feeSupport else .plannedSelection) ∧
    (∀ rejections, (Program.run exec (previewAssetSelection now req.selection) s).1 =
        .error (.noEligibleAssetCandidates rejections) →
      rejections.map (·.1) = req.selection.candidates.map (·.outpoint)) := by
  have hsound := h.sound
  obtain ⟨⟨result, t⟩, hpreview⟩ : ∃ x, Program.run exec
      (previewAssetSelection now req.selection) s = x := ⟨_, rfl⟩
  rw [hpreview]
  cases result with
  | ok selected =>
    obtain ⟨scopeId, s', hplan, hprepared, hpurpose⟩ :=
      planAssetSelection_ok hsound owner hi hop hpreview
    obtain ⟨hcheck, rfl, hselected⟩ := previewAssetSelection_ok hsound hpreview
    obtain ⟨-, hnd, -⟩ :=
      AssetSelectionPolicy.validateInputs_eq_ok_iff.mp (checkAssetRequest_ok hcheck)
    obtain ⟨-, -, heligible⟩ := selectedAssets_ok (hsound.releasing _).keyed hselected
    rw [hplan]
    refine ⟨fun selected' => ⟨fun heq => ?_, ?_⟩, fun e => ⟨fun h => (by cases h), fun h =>
      (by cases h)⟩, ?_, fun rejections h => (by cases h)⟩
    · cases heq
      exact ⟨_, rfl, rfl⟩
    · rintro ⟨planned, hplanned, rfl⟩
      cases hplanned
      rfl
    · intro selected' t' heq o ho
      cases heq
      obtain ⟨candidate, hmem, hcandidate, hin⟩ := heligible o ho
      obtain ⟨-, u, k, -, -, -, hk, hid⟩ := hprepared.reserved o ho
      refine ⟨candidate, hmem, hcandidate, hin, k, hk, hid, ?_⟩
      obtain ⟨e, he, rfl⟩ : ∃ e ∈ (assetSelection req selected scopeId).effects, e.outpoint = o :=
        ⟨_, List.mem_map.mpr ⟨o, ho, rfl⟩, rfl⟩
      obtain ⟨k', hk', hpurpose'⟩ := hpurpose e he
      rw [hk, Option.some.injEq] at hk'
      rw [hk', hpurpose']
      exact assetSelection_effect hnd hmem he hcandidate
  | error e =>
    have hplan : Program.run exec (planAssetSelection owner now req) s = (.error e, t) :=
      Program.run_bind_error _ hpreview
    rw [hplan]
    refine ⟨fun selected => ⟨fun h => (by cases h), ?_⟩, fun e' => ⟨fun h => ?_, fun h => ?_⟩,
      fun selected t' heq => (by cases heq), fun rejections heq => ?_⟩
    · rintro ⟨planned, hplanned, -⟩
      cases hplanned
    · cases h
      rfl
    · cases h
      rfl
    · cases heq
      rw [run_previewAssetSelection hsound] at hpreview
      cases hc : checkAssetRequest req.selection with
      | error e =>
        rw [hc] at hpreview
        obtain ⟨he, -⟩ := Prod.mk.inj hpreview
        rcases checkAssetRequest_error _ e hc with ⟨rfl, -⟩ | ⟨reason, rfl⟩ <;> cases he
      | ok u =>
        rw [hc] at hpreview
        obtain ⟨he, -⟩ := Prod.mk.inj hpreview
        rcases selectedAssets_error hc he with hinputs | ⟨rejections', heq, hall⟩
        · exact hinputs.ofInputs.elim
        · cases heq
          exact hall

namespace Sample

def feeCapabilities : CapabilitySet := {.reserveSupport, .feeSupport}

/-- One account with one scope that supports fees, and three confirmed outputs. -/
def supporting : InMemoryStateStore :=
  afterCalls "owner" (fun _ => ⟨"reservation"⟩) 0
    [.bootstrap ⟨"owner", [⟨accountId, "account", feeCapabilities⟩],
      [⟨scopeId, accountId, "descriptor", "derivation", feeCapabilities, 0⟩]⟩,
      .reconcileSnapshot ⟨1, .full, ["aa", "bb", "cc"].map fun txid =>
        ⟨⟨txid, 0⟩, accountId, scopeId, 1000, .confirmed 1 1, .unspent⟩⟩] empty

theorem supporting_run : ServiceRun ObservationSnapshot.Distinct empty supporting := by
  refine serviceRun_afterCalls _ _ _ (fun m hm => ?_) _
  simp only [List.mem_cons, List.not_mem_nil, or_false] at hm
  rcases hm with rfl | rfl
  · trivial
  · exact (by decide : (["aa", "bb", "cc"].map fun txid => (⟨txid, 0⟩ : OutPoint)).Nodup)

/-- Two carriers that are needed together, an unknown output, and an input for fees. -/
def mixedRequest : PlanAssetSelectionRequest :=
  ⟨operationId, accountId,
    [⟨⟨"cc", 0⟩, 0⟩, ⟨⟨"dd", 0⟩, 9⟩, ⟨⟨"aa", 0⟩, 3⟩, ⟨⟨"bb", 0⟩, 4⟩], 5, 2500, ⟨none, true, true⟩⟩

end Sample

theorem preview_agrees_sample : (∃ planned, (Program.run exec
      (planAssetSelection "owner" (fun _ => 0) Sample.mixedRequest) Sample.supporting).1 =
        .ok planned ∧ planned.selectedOutpoints = [⟨"aa", 0⟩, ⟨"bb", 0⟩, ⟨"cc", 0⟩]) ∧
    ∃ k, (Program.run exec (planAssetSelection "owner" (fun _ => 0) Sample.mixedRequest)
      Sample.supporting).2.getLock ⟨"cc", 0⟩ = some k ∧ k.purpose = .feeSupport := by
  obtain ⟨hagrees, -, hlocks, -⟩ := preview_agrees Sample.supporting_run "owner" (fun _ => 0)
    Sample.mixedRequest rfl rfl
  refine ⟨(hagrees _).mp rfl, ?_⟩
  obtain ⟨candidate, hmem, hcandidate, -, k, hk, -, hpurpose⟩ := hlocks _ _ rfl ⟨"cc", 0⟩
    (List.mem_cons_of_mem _ (List.mem_cons_of_mem _ List.mem_cons_self))
  refine ⟨k, hk, hpurpose.trans (if_pos ?_)⟩
  simp only [Sample.mixedRequest, List.mem_cons, List.not_mem_nil, or_false] at hmem
  rcases hmem with rfl | rfl | rfl | rfl
  · rfl
  all_goals simp at hcandidate

end InMemoryStateStore

end Txoscope
