import Txoscope.Core.AssetPolicy
import Txoscope.Service.Assets
import Txoscope.Service.Cleanup
import Txoscope.Service.Reserving

/-!
# What a planning call chooses

A planning call checks its request and chooses its inputs before it records anything. Which
selection that is can be read off the request and the state the call finds (`Describes`): exact
inputs have to be on offer, an explicit selection is taken as it is, and an asset plan picks among
the candidates that are free once the leases that have run out are ended. `choose_eq_ok_iff` says
that the code chooses this selection and no other.
-/

namespace Txoscope

/-! ## What is free after the expired leases were ended -/

theorem Cell.Agrees.selectable_releaseAll_iff {c : Cell} (h : c.Agrees) {ids : List OperationId}
    {u : ManagedUtxo} (hu : c.utxo = some u) :
    (c.releaseAll ids).selectable = true ↔
      (u.isPolicySpendable = true ∧ c.lock = none) ∨
        ∃ b, u.operationBinding = some b ∧ b.operationId ∈ ids ∧ u.onchainState = .confirmed ∧
          u.observationConflict = none ∧ u.availability ≠ .recovering := by
  rw [Cell.selectable_iff]
  by_cases hbound : ∃ b, u.operationBinding = some b ∧ b.operationId ∈ ids
  · obtain ⟨b, hb, hid⟩ := hbound
    -- the lock is of the operation that is bound, so it goes too
    have hlock : (c.releaseAll ids).lock = none := by
      refine Option.filter_eq_none_iff.mpr fun k hk => ?_
      obtain ⟨u', b', hu', hb', howner, -⟩ := h.locked k hk
      cases hu.symm.trans hu'
      cases hb.symm.trans hb'
      simpa [howner] using hid
    have hutxo : (c.releaseAll ids).utxo = some u.releaseBinding :=
      Cell.releaseAll_utxo_of_bound hid hu (ManagedUtxo.boundTo_iff.mpr ⟨b, hb, rfl⟩)
    rw [hutxo, and_iff_right hlock]
    simp only [Option.some.injEq, exists_eq_left', ManagedUtxo.isPolicySpendable_iff, hb,
      reduceCtorEq, false_and, and_false, false_or]
    constructor
    · rintro ⟨havailability, -⟩
      exact ⟨hid, ManagedUtxo.releasedAvailability_selectable_iff.mp havailability⟩
    · rintro ⟨-, hconfirmed, hconflict, hrecovering⟩
      exact ⟨ManagedUtxo.releasedAvailability_selectable_iff.mpr
        ⟨hconfirmed, hconflict, hrecovering⟩, hconfirmed, rfl, hconflict⟩
  · have hnone : ∀ id ∈ ids, ¬ c.BoundTo id := by
      rintro id hid ⟨u', hu', hbound'⟩
      cases hu.symm.trans hu'
      obtain ⟨b, hb, rfl⟩ := ManagedUtxo.boundTo_iff.mp hbound'
      exact hbound ⟨b, hb, hid⟩
    rw [h.releaseAll_of_not_bound hnone, hu]
    constructor
    · rintro ⟨hlock, u', hu', hspendable⟩
      cases hu'
      exact .inl ⟨hspendable, hlock⟩
    · rintro (⟨hspendable, hlock⟩ | ⟨b, hb, hid, -⟩)
      · exact ⟨hlock, u, rfl, hspendable⟩
      · exact (hbound ⟨b, hb, hid⟩).elim

/-- An output that is released keeps its account, its scope and its value. -/
theorem Cell.releaseAll_utxo (ids : List OperationId) (c : Cell) {u : ManagedUtxo}
    (hu : c.utxo = some u) : ∃ v, (c.releaseAll ids).utxo = some v ∧ v.accountId = u.accountId ∧
      v.scopeId = u.scopeId ∧ v.valueSats = u.valueSats := by
  change ∃ v, c.utxo.map _ = some v ∧ _
  rw [hu, Option.map_some]
  refine ⟨_, rfl, ?_⟩
  split_ifs <;> exact ⟨rfl, rfl, rfl⟩

namespace TxoscopeService

/-- The requests that a preview does not refuse at once. -/
theorem checkAssetRequest_eq_ok_iff {req : AssetSelectionRequest} :
    checkAssetRequest req = .ok () ↔ 0 < req.assetAmount ∧ req.candidates ≠ [] ∧
      (req.candidates.map (·.outpoint)).Nodup ∧ ∀ exact,
        req.constraints.exactOutpoints = some exact → exact ≠ [] ∧ exact.Nodup := by
  unfold checkAssetRequest
  split_ifs with hnone
  · rw [List.isEmpty_iff] at hnone
    simp only [false_iff]
    rintro ⟨hpos, hne, -⟩
    exact hnone.elim hpos.ne' hne
  · rw [not_or, List.isEmpty_iff] at hnone
    rw [AssetSelectionPolicy.validateInputs_eq_ok_iff, Nat.pos_iff_ne_zero, and_iff_right hnone.1,
      and_iff_right hnone.1, and_iff_right hnone.2]

theorem checkRejections_eq_ok {constraints : AssetSelectionConstraints}
    {eligible : List AssetCandidate} {rejections : List (OutPoint × DomainError)}
    (hne : eligible ≠ []) (h : ∀ exact, constraints.exactOutpoints = some exact → ∀ o ∈ exact,
      ∀ reason, (o, reason) ∉ rejections) :
    checkRejections constraints eligible rejections = .ok () := by
  unfold checkRejections
  cases hexact : constraints.exactOutpoints with
  | none => exact if_neg fun hempty => hne (List.isEmpty_iff.mp hempty)
  | some exact =>
    have hnone : rejectedExact rejections exact = none := by
      refine List.findSome?_eq_none_iff.mpr fun o ho => ?_
      rw [Option.map_eq_none_iff, List.find?_eq_none]
      rintro ⟨o', reason⟩ hrejected
      rw [decide_eq_true_eq]
      rintro rfl
      exact h exact hexact _ ho reason hrejected
    dsimp only
    rw [hnone]

end TxoscopeService

namespace InMemoryStateStore

open TxoscopeService

variable {s : InMemoryStateStore}

/-! ## Exact inputs -/

/-- The selection of exact inputs: distinct outputs of the account, spendable and unlocked, each in
a scope that grants what the request requires. The change goes to the scope of the first. -/
structure DescribesExact (s : InMemoryStateStore) (req : OperationRequest)
    (outpoints : List OutPoint) (selection : OperationSelection) : Prop where
  nodup : outpoints.Nodup
  offered : ∀ o ∈ outpoints, s.getLock o = none ∧ ∃ u, s.getUtxo o = some u ∧
    u.accountId = req.selection.accountId ∧ u.isPolicySpendable = true ∧
    OperationSelection.Grants s.getAccount s.getScope req.selection.accountId u.scopeId
      req.selection.requiredCapabilities
  eq : ∃ first u, outpoints.head? = some first ∧ s.getUtxo first = some u ∧
    selection = .fromRequest req ⟨outpoints, u.scopeId⟩

variable {request : SelectionRequest} {selection : OperationSelection} {outpoints : List OutPoint}

theorem eval_withChangeScope_iff {inputs : SelectedInputs} :
    Program.eval exec (withChangeScope outpoints) s = .ok inputs ↔
      ∃ first u, outpoints.head? = some first ∧ s.getUtxo first = some u ∧
        inputs = ⟨outpoints, u.scopeId⟩ := by
  cases outpoints with
  | nil =>
    refine ⟨fun h => (by cases h), ?_⟩
    rintro ⟨first, u, hfirst, -⟩
    cases hfirst
  | cons first outpoints =>
    unfold withChangeScope
    dsimp only [List.head?_cons]
    rw [eval_getUtxo_bind]
    simp only [Option.some.injEq, exists_and_left, exists_eq_left']
    cases s.getUtxo first with
    | none => exact ⟨fun h => (by cases h), fun ⟨_, h, _⟩ => (by cases h)⟩
    | some u =>
      refine ⟨fun h => ⟨u, rfl, (Except.ok.inj h).symm⟩, ?_⟩
      rintro ⟨u', hu', rfl⟩
      cases hu'
      rfl

/-- In which context the inputs of a request for exact outpoints are looked for. -/
theorem DescribesExact.context
    (hspec : request.intoOperationRequest.selection.spec = .exactOutpoints outpoints)
    (h : s.DescribesExact request.intoOperationRequest outpoints selection) :
    ∃ ctx, Program.eval exec (Orchestrator.proposalContext request) s = .ok ctx ∧
      ∀ o ∈ outpoints, s.Offers ctx o := by
  obtain ⟨first, u, hfirst, -⟩ := h.eq
  have hmem : first ∈ outpoints := List.mem_of_head? hfirst
  have hne : outpoints ≠ [] := List.ne_nil_of_mem hmem
  obtain ⟨-, v, -, -, -, account, scope, ha, -, -, -, hcapable, -⟩ := h.offered first hmem
  have hcheck : Orchestrator.checkSpec request.intoOperationRequest.selection.spec = .ok () :=
    hspec ▸ Orchestrator.checkSpec_exact_eq_ok_iff.mpr ⟨hne, h.nodup⟩
  have hexact : request.intoOperationRequest.selection.spec.isExact = true := by
    rw [hspec]
    simpa [InputSelectionSpec.isExact] using hne
  have hctx : Program.eval exec (Orchestrator.proposalContext request) s =
      .ok ⟨request.intoOperationRequest.selection.accountId, account.scopes,
        account.scopes.filter fun id => (s.getScope id).any fun sc =>
          sc.accountId = request.intoOperationRequest.selection.accountId ∧
            sc.capabilities.containsAll
              request.intoOperationRequest.selection.requiredCapabilities⟩ := by
    unfold Orchestrator.proposalContext
    rw [Program.OnlyCalls.eval_bind reads_snd (.ofExcept _), hcheck]
    change Program.eval exec ((StoreCall.getAccount _).invoke >>= _) s = _
    rw [eval_getAccount_bind, ha]
    dsimp only
    rw [if_neg (by rw [CapabilitySet.containsAll_iff.mpr hcapable]; decide),
      (Orchestrator.eligibleScopes_onlyReads _ _ _).eval_bind reads_snd, eval_eligibleScopes]
    change Program.eval exec (if _ then _ else _) s = _
    rw [if_neg (by rw [hexact]; simp)]
    rfl
  refine ⟨_, hctx, fun o ho => ?_⟩
  obtain ⟨hlock, w, hw, hwaccount, hspendable, account', scope', ha', hs', howner, hlisted, -,
    hscope⟩ := h.offered o ho
  cases ha.symm.trans ha'
  refine ⟨⟨w, hw, hwaccount, List.mem_filter.mpr ⟨hlisted, ?_⟩, hspendable⟩, hlock⟩
  rw [hs', Option.any_some, decide_eq_true_eq]
  exact ⟨howner, CapabilitySet.containsAll_iff.mpr hscope⟩

/-- A request for exact outpoints is proposed as it is described. -/
theorem eval_proposeOperation_exact_iff (hk : s.WellKeyed) (request : SelectionRequest)
    (hspec : request.intoOperationRequest.selection.spec = .exactOutpoints outpoints) :
    Program.eval exec (Orchestrator.proposeOperation request) s = .ok selection ↔
      s.DescribesExact request.intoOperationRequest outpoints selection := by
  have hreads : ∀ ctx : SelectionContext,
      OnlyReads (Program.forEach ctx.requireSelectableCandidate outpoints) := fun ctx =>
    .forEach (fun o => SelectionContext.requireSelectableCandidate_onlyReads ctx o) outpoints
  constructor
  · intro h
    rw [Orchestrator.proposeOperation_eq] at h
    obtain ⟨ctx, hctx, h⟩ := eval_bind_ok (Orchestrator.proposalContext_onlyReads request) h
    obtain ⟨inputs, hinputs, h⟩ := eval_bind_ok (selectInputs_onlyReads _ _) h
    obtain rfl := Except.ok.inj h
    obtain ⟨⟨u, hcheck⟩, haccount, hgrants⟩ := proposalContext_grants hctx
    rw [hspec] at hcheck hinputs
    obtain ⟨r, hall, hchange⟩ := eval_bind_ok (hreads ctx) hinputs
    obtain ⟨first, v, hfirst, hv, rfl⟩ := eval_withChangeScope_iff.mp hchange
    refine ⟨(Orchestrator.checkSpec_exact_eq_ok_iff.mp hcheck).2, fun o ho => ?_,
      first, v, hfirst, hv, rfl⟩
    obtain ⟨⟨w, hw, hwaccount, hscope, hspendable⟩, hlock⟩ := forEach_requireSelectable hk hall o ho
    exact ⟨hlock, w, hw, hwaccount.trans haccount, hspendable, hgrants _ hscope⟩
  · intro h
    obtain ⟨ctx, hctx, hoffers⟩ := h.context hspec
    obtain ⟨first, u, hfirst, hu, rfl⟩ := h.eq
    refine eval_proposeOperation_of_inputs _ hctx ?_
    rw [hspec]
    change Program.eval exec (Program.forEach ctx.requireSelectableCandidate outpoints >>=
      fun _ => withChangeScope outpoints) s = _
    rw [(hreads ctx).eval_bind reads_snd, eval_forEach_requireSelectable hk hoffers]
    exact eval_withChangeScope_iff.mpr ⟨first, u, hfirst, hu, rfl⟩

/-! ## Asset plans -/

/-- The store knows the candidate as an output of the target account that can be locked, in a scope
that grants what the candidate is used for. -/
structure Accepts (s : InMemoryStateStore) (req : AssetSelectionRequest)
    (candidate : AssetInputCandidate) (input : AssetCandidate) : Prop where
  utxo : ∃ u, s.getUtxo candidate.outpoint = some u ∧ u.accountId = req.targetAccountId ∧
    OperationSelection.Grants s.getAccount s.getScope req.targetAccountId u.scopeId
      candidate.purpose.requiredCapabilities ∧
    input = ⟨candidate.outpoint, candidate.assetAmount, u.valueSats⟩
  selectable : (s.cell candidate.outpoint).selectable = true
  fee : candidate.assetAmount = 0 → req.constraints.allowFeeSupport = true

variable {req : AssetSelectionRequest} {candidate : AssetInputCandidate} {input : AssetCandidate}

/-- The capabilities that are looked at in two places are those of the purpose. -/
theorem grants_purpose_iff (hk : s.WellKeyed) {account : Account}
    (ha : s.getAccount req.targetAccountId = some account)
    (hreserve : Capability.reserveSupport ∈ account.capabilities) {id : WalletScopeId} :
    (id ∈ (s.scopesFor account).eligible ∧ (candidate.assetAmount = 0 →
        .feeSupport ∈ account.capabilities ∧ id ∈ (s.scopesFor account).fee)) ↔
      OperationSelection.Grants s.getAccount s.getScope req.targetAccountId id
        candidate.purpose.requiredCapabilities := by
  have hid : account.id = req.targetAccountId := hk.account _ account ha
  rw [mem_scopesFor_eligible hk, mem_scopesFor_fee hk, hid]
  unfold OperationSelection.Grants AssetInputCandidate.purpose
  simp only [ha, Option.some.injEq, exists_and_left, exists_eq_left']
  split_ifs with hamount
  · simp only [LockPurpose.requiredCapabilities, Finset.insert_subset_iff,
      Finset.singleton_subset_iff, hreserve, true_and, hamount, true_implies]
    constructor
    · rintro ⟨-, hfee, hlisted, scope, hs, howner, hcapable, hscope⟩
      exact ⟨scope, hs, howner, hlisted, hfee, hcapable, hscope⟩
    · rintro ⟨scope, hs, howner, hlisted, hfee, hcapable, hscope⟩
      exact ⟨⟨hlisted, scope, hs, howner, hcapable⟩, hfee, hlisted, scope, hs, howner, hcapable,
        hscope⟩
  · simp only [LockPurpose.requiredCapabilities, Finset.singleton_subset_iff, hreserve, true_and,
      hamount, false_implies, and_true]
    constructor
    · rintro ⟨hlisted, scope, hs, howner, hcapable⟩
      exact ⟨scope, hs, howner, hlisted, hcapable⟩
    · rintro ⟨scope, hs, howner, hlisted, hcapable⟩
      exact ⟨hlisted, scope, hs, howner, hcapable⟩

theorem assess_eq_ok_iff (hk : s.WellKeyed) {account : Account}
    (ha : s.getAccount req.targetAccountId = some account)
    (hreserve : Capability.reserveSupport ∈ account.capabilities) :
    s.assess req account (s.scopesFor account) candidate = .ok input ↔
      s.Accepts req candidate input := by
  unfold assess
  cases hu : s.getUtxo candidate.outpoint with
  | none =>
    refine ⟨fun h => (by cases h), ?_⟩
    rintro ⟨⟨u, hu', -⟩, -, -⟩
    rw [hu] at hu'
    cases hu'
  | some u =>
    have hselectable : (s.cell candidate.outpoint).selectable =
        u.canBeLocked (s.getLock candidate.outpoint).isSome := by
      unfold Cell.selectable cell
      rw [hu]
      rfl
    refine assessStatus_eq_ok_iff.trans ?_
    rw [← hselectable]
    constructor
    · rintro ⟨hinput, haccount, heligible, hfree, hfee⟩
      refine ⟨⟨u, hu, haccount, ?_, hinput⟩, hfree, fun hamount => (hfee hamount).1⟩
      exact (grants_purpose_iff hk ha hreserve).mp ⟨heligible, fun hamount => (hfee hamount).2⟩
    · rintro ⟨⟨u', hu', haccount, hgrants, hinput⟩, hfree, hallow⟩
      cases hu.symm.trans hu'
      obtain ⟨heligible, hfee⟩ := (grants_purpose_iff hk ha hreserve).mpr hgrants
      exact ⟨hinput, haccount, heligible, hfree, fun hamount => ⟨hallow hamount, hfee hamount⟩⟩

/-- Whatever a candidate is used for, its account and scope have to support reservations. -/
theorem Accepts.grants (h : s.Accepts req candidate input) : ∃ account id,
    s.getAccount req.targetAccountId = some account ∧ .reserveSupport ∈ account.capabilities ∧
      (s.WellKeyed → id ∈ (s.scopesFor account).eligible) := by
  obtain ⟨u, -, -, hgrants, -⟩ := h.utxo
  obtain ⟨account, -, ha, -, -, -, hcapable, -⟩ := id hgrants
  have hreserve : Capability.reserveSupport ∈ account.capabilities := by
    refine hcapable ?_
    unfold AssetInputCandidate.purpose
    split_ifs <;> decide
  exact ⟨account, u.scopeId, ha, hreserve, fun hk =>
    ((grants_purpose_iff hk ha hreserve).mpr hgrants).1⟩

/-- What is accepted has not been rejected as well. -/
theorem Accepts.not_rejected (h : s.Accepts req candidate input) (hk : s.WellKeyed)
    (hnd : (req.candidates.map (·.outpoint)).Nodup) (hmem : candidate ∈ req.candidates)
    {account : Account} (ha : s.getAccount req.targetAccountId = some account)
    (hreserve : Capability.reserveSupport ∈ account.capabilities) (reason : DomainError) :
    (candidate.outpoint, reason) ∉ s.rejected req account (s.scopesFor account) req.candidates := by
  intro hrejected
  obtain ⟨candidate', hmem', hreason⟩ := List.mem_filterMap.mp hrejected
  cases hassess : s.assess req account (s.scopesFor account) candidate' with
  | ok input' =>
    rw [hassess] at hreason
    cases hreason
  | error e =>
    rw [hassess, Option.some.injEq, Prod.mk.injEq] at hreason
    obtain rfl : candidate' = candidate := List.inj_on_of_nodup_map hnd hmem' hmem hreason.1
    rw [(assess_eq_ok_iff hk ha hreserve).mpr h] at hassess
    cases hassess

/-- Exactly the inputs that some candidate of the request stands for. -/
def InputsOf (candidates : List AssetInputCandidate)
    (accepts : AssetInputCandidate → AssetCandidate → Prop) (inputs : List AssetCandidate) : Prop :=
  (inputs.map (·.outpoint)).Nodup ∧
    ∀ input, input ∈ inputs ↔ ∃ candidate ∈ candidates, accepts candidate input

theorem InputsOf.perm {candidates : List AssetInputCandidate}
    {accepts : AssetInputCandidate → AssetCandidate → Prop} {inputs inputs' : List AssetCandidate}
    (h : InputsOf candidates accepts inputs) (h' : InputsOf candidates accepts inputs') :
    inputs.Perm inputs' :=
  (List.perm_ext_iff_of_nodup (.of_map _ h.1) (.of_map _ h'.1)).mpr fun input =>
    (h.2 input).trans (h'.2 input).symm

/-- A preview selects what it takes from the candidates it accepts. -/
theorem selectedAssets_eq_ok_iff (hk : s.WellKeyed) (hpos : 0 < req.assetAmount)
    (hnd : (req.candidates.map (·.outpoint)).Nodup) {selected : List OutPoint} :
    s.selectedAssets req = .ok selected ↔ ∃ inputs,
      InputsOf req.candidates (s.Accepts req) inputs ∧ AssetSelectionPolicy.Takes inputs
        req.assetAmount req.requiredValueSats req.constraints selected := by
  have hinputs : ∀ {account : Account}, s.getAccount req.targetAccountId = some account →
      .reserveSupport ∈ account.capabilities → InputsOf req.candidates (s.Accepts req)
        (req.candidates.filterMap fun candidate =>
          (s.assess req account (s.scopesFor account) candidate).toOption) := by
    intro account ha hreserve
    refine ⟨hnd.sublist (assessed_sublist _ _ _), fun input => ?_⟩
    rw [List.mem_filterMap]
    refine exists_congr fun candidate => and_congr_right fun _ => ?_
    rw [toOption_eq_some_iff, assess_eq_ok_iff hk ha hreserve]
  constructor
  · intro h
    unfold selectedAssets at h
    cases ha : s.getAccount req.targetAccountId with
    | none =>
      rw [ha] at h
      cases h
    | some account =>
      rw [ha] at h
      dsimp only at h
      by_cases hreserve : Capability.reserveSupport ∈ account.capabilities
      · rw [if_neg (not_not.mpr hreserve)] at h
        split_ifs at h
        have hof := hinputs ha hreserve
        generalize (req.candidates.filterMap fun candidate =>
          (s.assess req account (s.scopesFor account) candidate).toOption) = inputs at h hof
        cases hc : checkRejections req.constraints inputs
            (s.rejected req account (s.scopesFor account) req.candidates) with
        | error e =>
          rw [hc] at h
          cases h
        | ok u =>
          rw [hc] at h
          exact ⟨inputs, hof, (AssetSelectionPolicy.select_iff_takes hpos hof.1).mp h⟩
      · rw [if_pos hreserve] at h
        cases h
  · rintro ⟨inputs, hof, htakes⟩
    obtain ⟨hne, -, hmem⟩ :=
      AssetSelectionPolicy.select_ok ((AssetSelectionPolicy.select_iff_takes hpos hof.1).mpr htakes)
    have haccepts : ∀ o ∈ selected, ∃ candidate ∈ req.candidates, candidate.outpoint = o ∧
        ∃ input, s.Accepts req candidate input := by
      intro o ho
      obtain ⟨input, hinput, rfl⟩ := List.mem_map.mp (hmem o ho)
      obtain ⟨candidate, hcandidate, hin⟩ := (hof.2 input).mp hinput
      obtain ⟨u, -, -, -, rfl⟩ := hin.utxo
      exact ⟨candidate, hcandidate, rfl, _, hin⟩
    obtain ⟨first, rest, rfl⟩ := List.exists_cons_of_ne_nil hne
    obtain ⟨candidate, hcandidate, -, input, hin⟩ := haccepts first List.mem_cons_self
    obtain ⟨account, id, ha, hreserve, heligible⟩ := hin.grants
    have hscopes : ((s.scopesFor account).eligible.isEmpty &&
        !req.constraints.exactOutpoints.any fun outpoints => !outpoints.isEmpty) = false := by
      rw [List.isEmpty_eq_false_iff.mpr (List.ne_nil_of_mem (heligible hk)), Bool.false_and]
    have hselect := (AssetSelectionPolicy.select_iff_takes hpos (hinputs ha hreserve).1).mpr
      (htakes.perm hof.1 (hof.perm (hinputs ha hreserve)))
    have hcheck := checkRejections_eq_ok
      (List.ne_nil_of_mem (((hinputs ha hreserve).2 input).mpr ⟨candidate, hcandidate, hin⟩))
      fun exact hexact o ho => by
        -- what is selected is what was asked for
        obtain ⟨chosen, hselected, htaken⟩ := htakes
        rw [hexact] at htaken
        rw [← htaken.2.2.outpoints, ← hselected] at ho
        obtain ⟨other, hother, rfl, input', hin'⟩ := haccepts o ho
        exact hin'.not_rejected hk hnd hother ha hreserve
    unfold selectedAssets
    rw [ha]
    dsimp only
    rw [if_neg (not_not.mpr hreserve), hscopes, if_neg Bool.false_ne_true, hcheck]
    exact hselect

/-- The output can be locked once the leases that have run out are ended: it can be already, or it
is held under such a lease and nothing else stands against it. -/
def FreeOnceExpired (s : InMemoryStateStore) (now : ℕ → ℕ) (outpoints : List OutPoint)
    (o : OutPoint) (u : ManagedUtxo) : Prop :=
  (u.isPolicySpendable = true ∧ s.getLock o = none) ∨
    ∃ b, u.operationBinding = some b ∧ s.RunsOut now outpoints b.operationId ∧
      u.onchainState = .confirmed ∧ u.observationConflict = none ∧ u.availability ≠ .recovering

/-- The candidate is an output of the target account, in a scope that grants what it is used for,
and free once the leases on the candidates that have run out are ended. -/
structure Supplies (s : InMemoryStateStore) (now : ℕ → ℕ) (req : AssetSelectionRequest)
    (candidate : AssetInputCandidate) (input : AssetCandidate) : Prop where
  utxo : ∃ u, s.getUtxo candidate.outpoint = some u ∧ u.accountId = req.targetAccountId ∧
    OperationSelection.Grants s.getAccount s.getScope req.targetAccountId u.scopeId
      candidate.purpose.requiredCapabilities ∧
    s.FreeOnceExpired now (sortByText (req.candidates.map (·.outpoint))) candidate.outpoint u ∧
    input = ⟨candidate.outpoint, candidate.assetAmount, u.valueSats⟩
  fee : candidate.assetAmount = 0 → req.constraints.allowFeeSupport = true

variable {now : ℕ → ℕ}

theorem getUtxo_afterExpiry (s : InMemoryStateStore) (now : ℕ → ℕ) (outpoints : List OutPoint)
    {o : OutPoint} {u : ManagedUtxo} (hu : s.getUtxo o = some u) :
    ∃ v, (s.afterExpiry now outpoints).getUtxo o = some v ∧ v.accountId = u.accountId ∧
      v.scopeId = u.scopeId ∧ v.valueSats = u.valueSats := by
  obtain ⟨v, hv, hsame⟩ := Cell.releaseAll_utxo (expiring now outpoints s) (s.cell o) hu
  exact ⟨v, (congrArg Cell.utxo (cell_releasing s _ o)).trans hv, hsame⟩

theorem getUtxo_of_afterExpiry {o : OutPoint} {v : ManagedUtxo}
    (hv : (s.afterExpiry now outpoints).getUtxo o = some v) : ∃ u, s.getUtxo o = some u := by
  have hcell : ((s.cell o).releaseAll (expiring now outpoints s)).utxo = some v :=
    (congrArg Cell.utxo (cell_releasing s _ o)).symm.trans hv
  obtain ⟨u, hu, -⟩ := Option.map_eq_some_iff.mp hcell
  exact ⟨u, hu⟩

theorem selectable_afterExpiry_iff (h : s.Sound) {o : OutPoint} {u : ManagedUtxo}
    (hu : s.getUtxo o = some u) : ((s.afterExpiry now outpoints).cell o).selectable = true ↔
      s.FreeOnceExpired now outpoints o u := by
  have hagrees : (s.cell o).Agrees := h.owned.agrees o
  rw [show (s.afterExpiry now outpoints).cell o = _ from cell_releasing s _ o,
    hagrees.selectable_releaseAll_iff hu]
  simp only [mem_expiring_iff]
  rfl

theorem accepts_afterExpiry_iff (h : s.Sound) :
    (s.afterExpiry now (sortByText (req.candidates.map (·.outpoint)))).Accepts req candidate input ↔
      s.Supplies now req candidate input := by
  obtain ⟨-, haccounts, hscopes⟩ :=
    releasing_frame (expiring now (sortByText (req.candidates.map (·.outpoint))) s) s
  constructor
  · rintro ⟨⟨v, hv, haccount, hgrants, hinput⟩, hfree, hfee⟩
    obtain ⟨u, hu⟩ := getUtxo_of_afterExpiry hv
    obtain ⟨v', hv', hsameAccount, hsameScope, hsameValue⟩ := getUtxo_afterExpiry s now _ hu
    cases hv.symm.trans hv'
    refine ⟨⟨u, hu, hsameAccount ▸ haccount, ?_, (selectable_afterExpiry_iff h hu).mp hfree, ?_⟩,
      hfee⟩
    · rw [← hsameScope, ← haccounts, ← hscopes]
      exact hgrants
    · rw [hinput, hsameValue]
  · rintro ⟨⟨u, hu, haccount, hgrants, hfree, hinput⟩, hfee⟩
    obtain ⟨v, hv, hsameAccount, hsameScope, hsameValue⟩ :=
      getUtxo_afterExpiry s now (sortByText (req.candidates.map (·.outpoint))) hu
    refine ⟨⟨v, hv, hsameAccount.trans haccount, ?_, ?_⟩,
      (selectable_afterExpiry_iff h hu).mpr hfree, hfee⟩
    · rw [hsameScope]
      unfold afterExpiry
      rw [haccounts, hscopes]
      exact hgrants
    · rw [hinput, hsameValue]

/-- The selection of an asset plan: what the policy takes from the candidates that are supplied.
The change goes to the scope of the first input. -/
structure DescribesAsset (s : InMemoryStateStore) (now : ℕ → ℕ) (req : PlanAssetSelectionRequest)
    (selection : OperationSelection) : Prop where
  amount : 0 < req.selection.assetAmount
  nodup : (req.selection.candidates.map (·.outpoint)).Nodup
  eq : ∃ inputs selected first u,
    InputsOf req.selection.candidates (s.Supplies now req.selection) inputs ∧
    AssetSelectionPolicy.Takes inputs req.selection.assetAmount req.selection.requiredValueSats
      req.selection.constraints selected ∧
    selected.head? = some first ∧ s.getUtxo first = some u ∧
    selection = assetSelection req selected u.scopeId

/-- What a preview of a sound state selects. -/
theorem run_previewAssetSelection_iff (h : s.Sound) (now : ℕ → ℕ) (req : AssetSelectionRequest)
    (selected : List OutPoint) :
    (Program.run exec (previewAssetSelection now req) s).1 = .ok selected ↔
      0 < req.assetAmount ∧ (req.candidates.map (·.outpoint)).Nodup ∧ ∃ inputs,
        InputsOf req.candidates (s.Supplies now req) inputs ∧ AssetSelectionPolicy.Takes inputs
          req.assetAmount req.requiredValueSats req.constraints selected := by
  have hsound := h.releasing (expiring now (sortByText (req.candidates.map (·.outpoint))) s)
  have haccepts : (s.afterExpiry now (sortByText (req.candidates.map (·.outpoint)))).Accepts req =
      s.Supplies now req := by
    funext candidate input
    exact propext (accepts_afterExpiry_iff h)
  rw [run_previewAssetSelection h]
  cases hc : checkAssetRequest req with
  | error e =>
    refine ⟨fun h => (by cases h), ?_⟩
    rintro ⟨hpos, hnd, inputs, hof, htakes⟩
    -- a selection that takes something was asked for by a valid request
    have hselect := (AssetSelectionPolicy.select_iff_takes hpos hof.1).mpr htakes
    obtain ⟨hne, -, hmem⟩ := AssetSelectionPolicy.select_ok hselect
    obtain ⟨o, ho⟩ := List.exists_mem_of_ne_nil _ hne
    obtain ⟨input, hinput, -⟩ := List.mem_map.mp (hmem o ho)
    obtain ⟨candidate, hcandidate, -⟩ := (hof.2 input).mp hinput
    have hok : checkAssetRequest req = .ok () := by
      refine checkAssetRequest_eq_ok_iff.mpr ⟨hpos, List.ne_nil_of_mem hcandidate, hnd, ?_⟩
      intro exact hexact
      obtain ⟨chosen, -, htaken⟩ := htakes
      rw [hexact] at htaken
      exact ⟨htaken.1, htaken.2.1⟩
    rw [hc] at hok
    cases hok
  | ok u =>
    obtain ⟨hpos, -, hnd, -⟩ := checkAssetRequest_eq_ok_iff.mp hc
    refine (selectedAssets_eq_ok_iff hsound.keyed hpos hnd).trans ?_
    change (∃ inputs, InputsOf req.candidates ((s.afterExpiry now _).Accepts req) inputs ∧ _) ↔ _
    rw [haccepts, and_iff_right hpos, and_iff_right hnd]

/-! ## The calls -/

/-- The call stands for the selection in the state it finds. -/
def Describes (s : InMemoryStateStore) : PlanCall → OperationSelection → Prop
  | .planExact req, selection =>
    s.DescribesExact req.request.intoOperationRequest req.selectedOutpoints selection
  | .reserveSpecific req, selection =>
    s.DescribesExact req.request.intoOperationRequest [req.outpoint] selection
  | .applyExplicit req, selection =>
    req.selectedOutpoints ≠ [] ∧ req.selectedOutpoints.Nodup ∧
      (s.getScope req.changeScopeId).isSome ∧
      selection = ApplyExplicitSelectionRequest.selection req
  | .planAsset now req, selection => s.DescribesAsset now req selection

theorem run_applyExplicit_iff {req : ApplyExplicitSelectionRequest} :
    (Program.run exec (PlanCall.applyExplicit req).choose s).1 = .ok selection ↔
      s.Describes (.applyExplicit req) selection := by
  have hcheck : checkExplicit req.selectedOutpoints = .ok () ↔
      req.selectedOutpoints ≠ [] ∧ req.selectedOutpoints.Nodup := by
    unfold checkExplicit
    split_ifs with hempty
    · simp [List.isEmpty_iff.mp hempty]
    · rw [Orchestrator.checkUnique_eq_ok_iff]
      simp [List.isEmpty_iff] at hempty
      simp [hempty]
  unfold PlanCall.choose Describes
  dsimp only
  rw [← and_assoc, ← hcheck]
  cases checkExplicit req.selectedOutpoints with
  | error e => exact ⟨fun h => (by cases h), fun h => (by cases h.1)⟩
  | ok u =>
    change (Program.run exec ((StoreCall.getScope req.changeScopeId).invoke >>= _) s).1 = _ ↔ _
    have hread : Program.run exec (StoreCall.getScope req.changeScopeId).invoke s =
        (.ok (s.getScope req.changeScopeId), s) := rfl
    rw [Program.run_bind_ok _ hread, and_iff_right rfl]
    cases s.getScope req.changeScopeId with
    | none => exact ⟨fun h => (by cases h), fun h => (by cases h.1)⟩
    | some scope =>
      refine ⟨fun h => ⟨rfl, (Except.ok.inj h).symm⟩, ?_⟩
      rintro ⟨-, rfl⟩
      rfl

/-- The change of what was previewed goes to the scope of the first input. -/
theorem run_planAsset_of_preview (h : s.Sound) {req : PlanAssetSelectionRequest}
    {selected : List OutPoint} {t : InMemoryStateStore}
    (hpreview : Program.run exec (previewAssetSelection now req.selection) s = (.ok selected, t)) :
    (Program.run exec (PlanCall.planAsset now req).choose s).1 = .ok selection ↔
      ∃ first u, selected.head? = some first ∧ s.getUtxo first = some u ∧
        selection = assetSelection req selected u.scopeId := by
  obtain ⟨-, rfl, -⟩ := previewAssetSelection_ok h hpreview
  unfold PlanCall.choose
  dsimp only
  rw [Program.run_bind_ok _ hpreview]
  cases selected.head? with
  | none =>
    refine ⟨fun h => (by cases h), ?_⟩
    rintro ⟨first, u, hfirst, -⟩
    cases hfirst
  | some first =>
    simp only [Option.some.injEq, exists_and_left, exists_eq_left']
    have hread : ∀ {t : InMemoryStateStore}, Program.run exec (StoreCall.getUtxo first).invoke t =
        (.ok (t.getUtxo first), t) := rfl
    rw [Program.run_bind_ok _ hread]
    cases hu : s.getUtxo first with
    | none =>
      cases hv : (s.afterExpiry now (sortByText (req.selection.candidates.map
          (·.outpoint)))).getUtxo first with
      | none => exact ⟨fun h => (by cases h), fun ⟨_, h, _⟩ => (by cases h)⟩
      | some v =>
        obtain ⟨u, hu'⟩ := getUtxo_of_afterExpiry hv
        rw [hu] at hu'
        cases hu'
    | some u =>
      obtain ⟨v, hv, -, hscope, -⟩ := getUtxo_afterExpiry s now _ hu
      rw [hv]
      refine ⟨fun h => ⟨u, rfl, ?_⟩, ?_⟩
      · rw [← hscope]
        exact (Except.ok.inj h).symm
      · rintro ⟨u', hu', rfl⟩
        cases hu'
        rw [← hscope]
        rfl

theorem run_planAsset_iff (h : s.Sound) {req : PlanAssetSelectionRequest} :
    (Program.run exec (PlanCall.planAsset now req).choose s).1 = .ok selection ↔
      s.DescribesAsset now req selection := by
  have hiff := run_previewAssetSelection_iff h now req.selection
  obtain ⟨⟨result, t⟩, hpreview⟩ : ∃ x, Program.run exec
      (previewAssetSelection now req.selection) s = x := ⟨_, rfl⟩
  rw [hpreview] at hiff
  cases result with
  | error e =>
    rw [show Program.run exec (PlanCall.planAsset now req).choose s = _ from
      Program.run_bind_error _ hpreview]
    refine ⟨fun h => (by cases h), ?_⟩
    rintro ⟨hpos, hnd, inputs, selected, first, u, hof, htakes, -⟩
    cases (hiff _).mpr ⟨hpos, hnd, inputs, hof, htakes⟩
  | ok selected =>
    rw [run_planAsset_of_preview h hpreview]
    constructor
    · rintro ⟨first, u, hfirst, hu, rfl⟩
      obtain ⟨hpos, hnd, inputs, hof, htakes⟩ := (hiff _).mp rfl
      exact ⟨hpos, hnd, inputs, selected, first, u, hof, htakes, hfirst, hu, rfl⟩
    · rintro ⟨hpos, hnd, inputs, selected', first, u, hof, htakes, hfirst, hu, rfl⟩
      obtain rfl : selected = selected' :=
        Except.ok.inj ((hiff _).mpr ⟨hpos, hnd, inputs, hof, htakes⟩)
      exact ⟨first, u, hfirst, hu, rfl⟩

/-- A planning call chooses what it describes, and fails where it describes nothing. -/
theorem choose_eq_ok_iff (h : s.Sound) (call : PlanCall) :
    (Program.run exec call.choose s).1 = .ok selection ↔ s.Describes call selection := by
  cases call with
  | planExact req => exact eval_proposeOperation_exact_iff h.keyed req.request rfl
  | reserveSpecific req => exact eval_proposeOperation_exact_iff h.keyed req.request rfl
  | applyExplicit req => exact run_applyExplicit_iff
  | planAsset now req => exact run_planAsset_iff h

end InMemoryStateStore

end Txoscope
