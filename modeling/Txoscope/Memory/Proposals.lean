import Txoscope.Memory.Commit
import Txoscope.Memory.Safety

/-!
# From a proposal to a reservation

Eligibility is decided by the selectors when an operation is proposed, and again by the
orchestrator and by the store when it is committed. Whatever a selector accepts the later checks
accept as well (`Proposed.admits`), so a proposal that succeeds can be prepared in the same state.
-/

namespace Txoscope

/-! ## Requests -/

/-- A request requires of its scopes what the locks of its inputs require. -/
theorem SelectionRequest.requiredCapabilities_eq (request : SelectionRequest) :
    request.intoOperationRequest.selection.requiredCapabilities =
      request.intoOperationRequest.locking.lockPurpose.requiredCapabilities := by
  cases request <;> rfl

theorem SelectionRequest.requiredChangeCapabilities_eq (request : SelectionRequest) :
    request.intoOperationRequest.locking.lockPurpose.requiredChangeCapabilities =
      request.intoOperationRequest.selection.requiredCapabilities := by
  cases request <;> rfl

namespace Orchestrator

theorem checkUnique_eq_ok_iff {message : String} {outpoints : List OutPoint}
    {unique : Finset OutPoint} : checkUnique message outpoints unique = .ok () ↔
      outpoints.Nodup ∧ ∀ o ∈ outpoints, o ∉ unique := by
  induction outpoints generalizing unique with
  | nil => simp [checkUnique]
  | cons o outpoints ih =>
    unfold checkUnique
    split_ifs with hmem
    · simp [hmem]
    · rw [ih, List.nodup_cons, List.forall_mem_cons]
      constructor
      · rintro ⟨hnd, hall⟩
        refine ⟨⟨fun ho => hall o ho (Finset.mem_insert_self _ _), hnd⟩, hmem, fun o' ho' hin => ?_⟩
        exact hall o' ho' (Finset.mem_insert_of_mem hin)
      · rintro ⟨⟨hnew, hnd⟩, -, hall⟩
        refine ⟨hnd, fun o' ho' hin => ?_⟩
        rcases Finset.mem_insert.mp hin with rfl | hin
        · exact hnew ho'
        · exact hall o' ho' hin

theorem checkSpec_exact_eq_ok_iff {outpoints : List OutPoint} :
    checkSpec (.exactOutpoints outpoints) = .ok () ↔ outpoints ≠ [] ∧ outpoints.Nodup := by
  cases outpoints with
  | nil => simp [checkSpec]
  | cons o outpoints =>
    refine checkUnique_eq_ok_iff.trans ?_
    simp

/-- The first part of a proposal: whose outputs may be selected. -/
def proposalContext (request : SelectionRequest) : Client SelectionContext := do
  let req := request.intoOperationRequest
  Program.ofExcept (checkSpec req.selection.spec)
  let accountId := req.selection.accountId
  match ← (StoreCall.getAccount accountId).invoke with
  | none => throw (.accountNotFound accountId)
  | some account =>
    if !account.capabilities.containsAll req.selection.requiredCapabilities then
      throw (.missingAccountCapabilities accountId)
    else
      let eligible ← eligibleScopes accountId req.selection.requiredCapabilities account.scopes
      if eligible.isEmpty && !req.selection.spec.isExact then throw (.noEligibleScope accountId)
      else return ⟨accountId, account.scopes, eligible⟩

theorem proposalContext_onlyReads (request : SelectionRequest) :
    OnlyReads (proposalContext request) := by
  unfold proposalContext
  refine .bind (.ofExcept _) fun _ => .bind (.invoke trivial) fun account => ?_
  cases account with
  | none => exact .throw _
  | some account =>
    dsimp only
    split_ifs
    · exact .throw _
    · refine .bind (eligibleScopes_onlyReads _ _ _) fun eligible => ?_
      split_ifs
      · exact .throw _
      · exact .pure _

/-- A proposal is a selection of inputs in its context. -/
theorem proposeOperation_eq (request : SelectionRequest) :
    proposeOperation request = do
      let ctx ← proposalContext request
      let inputs ← selectInputs ctx request.intoOperationRequest.selection.spec
      return OperationSelection.fromRequest request.intoOperationRequest inputs := by
  unfold proposeOperation proposalContext
  simp only [bind_assoc]
  refine bind_congr fun _ => bind_congr fun account => ?_
  cases account with
  | none => rfl
  | some account =>
    dsimp only
    split_ifs
    · rfl
    · simp only [bind_assoc]
      refine bind_congr fun eligible => ?_
      split_ifs <;> rfl

end Orchestrator

namespace OperationSelection

theorem Grants.mono {getAccount : AccountId → Option Account}
    {getScope : WalletScopeId → Option WalletScope} {accountId : AccountId}
    {scopeId : WalletScopeId} {required required' : CapabilitySet}
    (h : Grants getAccount getScope accountId scopeId required) (hsub : required' ⊆ required) :
    Grants getAccount getScope accountId scopeId required' := by
  obtain ⟨account, scope, ha, hs, howner, hlisted, haccount, hscope⟩ := h
  exact ⟨account, scope, ha, hs, howner, hlisted, hsub.trans haccount, hsub.trans hscope⟩

theorem changeCapabilities_subset {selection : OperationSelection} {granted : CapabilitySet}
    (h : ∀ e ∈ selection.effects, e.purpose.requiredChangeCapabilities ⊆ granted) :
    selection.changeCapabilities ⊆ granted := by
  have hfold : ∀ (effects : List SelectionEffect) (acc : CapabilitySet), acc ⊆ granted →
      (∀ e ∈ effects, e.purpose.requiredChangeCapabilities ⊆ granted) →
        effects.foldl (fun acc e => acc ∪ e.purpose.requiredChangeCapabilities) acc ⊆ granted := by
    intro effects
    induction effects with
    | nil => exact fun _ hacc _ => hacc
    | cons e effects ih =>
      intro acc hacc hall
      rw [List.forall_mem_cons] at hall
      exact ih _ (Finset.union_subset hacc hall.1) hall.2
  exact hfold _ _ (Finset.empty_subset _) h

end OperationSelection

namespace InMemoryStateStore

variable {s s' : InMemoryStateStore}

/-! ## Evaluating the reads of a proposal -/

section Reads

variable {α : Type}

theorem eval_getAccount_bind (id : AccountId) (f : Option Account → Client α) :
    Program.eval exec ((StoreCall.getAccount id).invoke >>= f) s =
      Program.eval exec (f (s.getAccount id)) s := rfl

theorem eval_getScope_bind (id : WalletScopeId) (f : Option WalletScope → Client α) :
    Program.eval exec ((StoreCall.getScope id).invoke >>= f) s =
      Program.eval exec (f (s.getScope id)) s := rfl

theorem eval_getUtxo_bind (o : OutPoint) (f : Option ManagedUtxo → Client α) :
    Program.eval exec ((StoreCall.getUtxo o).invoke >>= f) s =
      Program.eval exec (f (s.getUtxo o)) s := rfl

/-- What a program that reads first has read. -/
theorem eval_bind_ok {β : Type} {p : Client α} (hp : OnlyReads p) {f : α → Client β} {b : β}
    (h : Program.eval exec (p >>= f) s = .ok b) :
    ∃ a, Program.eval exec p s = .ok a ∧ Program.eval exec (f a) s = .ok b := by
  rw [hp.eval_bind reads_snd] at h
  cases ha : Program.eval exec p s with
  | error e =>
    rw [ha] at h
    cases h
  | ok a =>
    rw [ha] at h
    exact ⟨a, rfl, h⟩

end Reads

/-! ## What the selectors accept -/

/-- The output is of the account, in an eligible scope, spendable and unlocked. -/
structure Offers (s : InMemoryStateStore) (ctx : SelectionContext) (o : OutPoint) : Prop where
  utxo : ∃ u, s.getUtxo o = some u ∧ u.accountId = ctx.accountId ∧
    u.scopeId ∈ ctx.eligibleScopeIds ∧ u.isPolicySpendable = true
  unlocked : s.getLock o = none

variable {ctx : SelectionContext}

theorem eval_isPolicySpendable (u : ManagedUtxo) :
    Program.eval exec (SelectionContext.isPolicySpendable u) s =
      .ok (u.isPolicySpendable && (s.getLock u.outpoint).isNone) := by
  unfold SelectionContext.isPolicySpendable
  cases u.isPolicySpendable <;> rfl

theorem eval_selectableAmong (utxos : List ManagedUtxo) :
    Program.eval exec (ctx.selectableAmong utxos) s =
      .ok ((utxos.filter fun u => u.accountId = ctx.accountId ∧ u.scopeId ∈ ctx.eligibleScopeIds ∧
        (u.isPolicySpendable && (s.getLock u.outpoint).isNone)).map (·.outpoint)) := by
  induction utxos with
  | nil => rfl
  | cons u utxos ih =>
    unfold SelectionContext.selectableAmong
    by_cases ha : u.accountId = ctx.accountId
    · by_cases hs : u.scopeId ∈ ctx.eligibleScopeIds
      · rw [if_neg (not_not.mpr ha), if_neg (not_not.mpr hs),
          Program.OnlyCalls.eval_bind reads_snd (SelectionContext.isPolicySpendable_onlyReads u),
          eval_isPolicySpendable, List.filter_cons]
        change Program.eval exec (if (u.isPolicySpendable && (s.getLock u.outpoint).isNone) = true
          then _ else _) s = _
        by_cases hp : (u.isPolicySpendable && (s.getLock u.outpoint).isNone) = true
        · rw [if_pos hp, if_pos (by simp only [ha, hs, hp, and_self, decide_true]),
            Program.OnlyCalls.eval_bind reads_snd (SelectionContext.selectableAmong_onlyReads _ _),
            ih]
          rfl
        · rw [if_neg hp, if_neg (fun h => hp (of_decide_eq_true h).2.2), ih]
      · rw [if_neg (not_not.mpr ha), if_pos hs, ih, List.filter_cons,
          if_neg fun h => hs (of_decide_eq_true h).2.1]
    · rw [if_pos ha, ih, List.filter_cons, if_neg fun h => ha (of_decide_eq_true h).1]

/-- The candidates of a target value are offered, each once. -/
theorem selectableUtxos_offers (hk : s.WellKeyed) {candidates : List OutPoint}
    (h : Program.eval exec ctx.selectableUtxos s = .ok candidates) :
    candidates.Nodup ∧ ∀ o ∈ candidates, s.Offers ctx o := by
  have hreads : OnlyReads StoreCall.listUtxos.invoke := .invoke trivial
  obtain ⟨utxos, hlist, h⟩ := eval_bind_ok hreads h
  have hutxos : utxos = s.listUtxos := (Except.ok.inj hlist).symm
  obtain ⟨hnd, hmem⟩ := enumerates_listUtxos hk
  have hget : ∀ u ∈ s.listUtxos, s.getUtxo u.outpoint = some u := by
    intro u hu
    obtain ⟨o, ho⟩ := (hmem u).mp hu
    rw [hk.toLedger.utxo o u ho]
    exact ho
  rw [eval_selectableAmong, hutxos] at h
  obtain rfl := Except.ok.inj h
  constructor
  · refine (hnd.filter _).map_on fun u hu v hv heq => ?_
    have huv := hget u (List.mem_of_mem_filter hu)
    rw [heq, hget v (List.mem_of_mem_filter hv)] at huv
    exact (Option.some.inj huv).symm
  · intro o ho
    obtain ⟨u, hu, rfl⟩ := List.mem_map.mp ho
    obtain ⟨hu, hp⟩ := List.mem_filter.mp hu
    simp only [decide_eq_true_eq, Bool.and_eq_true, Option.isNone_iff_eq_none] at hp
    exact ⟨⟨u, hget u hu, hp.1, hp.2.1, hp.2.2.1⟩, hp.2.2.2⟩

theorem preferScope_mem {scopes : List WalletScope} {scope : WalletScope}
    (h : preferScope scopes = some scope) : scope ∈ scopes := by
  cases scopes with
  | nil => cases h
  | cons first scopes =>
    have hfold : ∀ (rest : List WalletScope) (best : WalletScope),
        rest.foldl (fun best s => if s.priority < best.priority then s else best) best ∈
          best :: rest := by
      intro rest
      induction rest with
      | nil => exact fun best => List.mem_singleton_self best
      | cons sc rest ih =>
        intro best
        rw [List.foldl_cons]
        rcases List.mem_cons.mp (ih (if sc.priority < best.priority then sc else best)) with heq | hin
        · rw [heq]
          split_ifs
          · exact List.mem_cons_of_mem _ List.mem_cons_self
          · exact List.mem_cons_self
        · exact List.mem_cons_of_mem _ (List.mem_cons_of_mem _ hin)
    exact Option.some.inj h ▸ hfold scopes first

theorem eval_readScopes (ids : List WalletScopeId) :
    Program.eval exec (SelectionContext.readScopes ids) s = .ok (ids.filterMap s.getScope) := by
  induction ids with
  | nil => rfl
  | cons id ids ih =>
    unfold SelectionContext.readScopes
    rw [eval_getScope_bind, (SelectionContext.readScopes_onlyReads ids).eval_bind reads_snd, ih]
    cases h : s.getScope id with
    | none =>
      rw [List.filterMap_cons_none h]
      rfl
    | some scope =>
      rw [List.filterMap_cons_some h]
      rfl

theorem readScopes_mem {ids : List WalletScopeId} {scopes : List WalletScope}
    (h : Program.eval exec (SelectionContext.readScopes ids) s = .ok scopes) :
    ∀ scope ∈ scopes, ∃ id ∈ ids, s.getScope id = some scope := by
  rw [eval_readScopes] at h
  obtain rfl := Except.ok.inj h
  exact fun scope hscope => List.mem_filterMap.mp hscope

theorem preferredScope_eligible (hk : s.WellKeyed) {scope : WalletScope}
    (h : Program.eval exec ctx.preferredScope s = .ok scope) :
    scope.id ∈ ctx.eligibleScopeIds := by
  obtain ⟨scopes, hscopes, h⟩ := eval_bind_ok (SelectionContext.readScopes_onlyReads _) h
  cases hp : preferScope scopes with
  | none =>
    rw [hp] at h
    cases h
  | some best =>
    rw [hp] at h
    obtain rfl := Except.ok.inj h
    obtain ⟨id, hid, hget⟩ := readScopes_mem hscopes best (preferScope_mem hp)
    rw [hk.scope id best hget]
    exact hid

theorem isSelectableCandidate_offers (hk : s.WellKeyed) {o : OutPoint}
    (h : Program.eval exec (ctx.isSelectableCandidate o) s = .ok true) : s.Offers ctx o := by
  unfold SelectionContext.isSelectableCandidate at h
  rw [eval_getUtxo_bind] at h
  cases hu : s.getUtxo o with
  | none =>
    rw [hu] at h
    cases h
  | some u =>
    rw [hu] at h
    dsimp only at h
    split_ifs at h with hctx
    · rw [eval_isPolicySpendable] at h
      have hp := Except.ok.inj h
      rw [Bool.and_eq_true, Option.isNone_iff_eq_none, hk.toLedger.utxo o u hu] at hp
      exact ⟨⟨u, hu, hctx.1, hctx.2, hp.1⟩, hp.2⟩
    · cases h

theorem requireSelectableCandidate_offers (hk : s.WellKeyed) {o : OutPoint} {r : Unit}
    (h : Program.eval exec (ctx.requireSelectableCandidate o) s = .ok r) : s.Offers ctx o := by
  unfold SelectionContext.requireSelectableCandidate at h
  rw [eval_getUtxo_bind] at h
  cases hu : s.getUtxo o with
  | none =>
    rw [hu] at h
    cases h
  | some u =>
    rw [hu] at h
    dsimp only at h
    by_cases haccount : u.accountId = ctx.accountId
    · rw [if_neg (not_not.mpr haccount)] at h
      by_cases hscope : u.scopeId ∈ ctx.eligibleScopeIds
      · rw [if_neg (not_not.mpr hscope)] at h
        split_ifs at h
        · cases h
        · obtain ⟨p, hs, h⟩ := eval_bind_ok (SelectionContext.isPolicySpendable_onlyReads u) h
          rw [eval_isPolicySpendable] at hs
          obtain rfl := Except.ok.inj hs
          split_ifs at h with hp
          · rw [Bool.and_eq_true, Option.isNone_iff_eq_none, hk.toLedger.utxo o u hu] at hp
            exact ⟨⟨u, hu, haccount, hscope, hp.1⟩, hp.2⟩
          · cases h
      · rw [if_pos hscope] at h
        split_ifs at h
        · rw [eval_getScope_bind] at h
          split_ifs at h <;> cases h
        · cases h
    · rw [if_pos haccount] at h
      cases h

theorem readKeyed_snd {candidates : List OutPoint} {keyed : List ((ℕ × ℕ) × OutPoint)}
    (h : Program.eval exec (SelectionSortPolicy.readKeyed candidates) s = .ok keyed) :
    keyed.map (·.2) = candidates := by
  induction candidates generalizing keyed with
  | nil =>
    obtain rfl := Except.ok.inj h
    rfl
  | cons o candidates ih =>
    unfold SelectionSortPolicy.readKeyed at h
    rw [eval_getUtxo_bind] at h
    cases hu : s.getUtxo o with
    | none =>
      rw [hu] at h
      cases h
    | some u =>
      rw [hu] at h
      obtain ⟨rest, hrest, h⟩ := eval_bind_ok (SelectionSortPolicy.readKeyed_onlyReads _) h
      obtain rfl := Except.ok.inj h
      rw [List.map_cons, ih hrest]

theorem sortCandidateIds_perm {candidates sorted : List OutPoint}
    (h : Program.eval exec (SelectionSortPolicy.sortCandidateIds candidates) s = .ok sorted) :
    sorted.Perm candidates := by
  obtain ⟨keyed, hkeyed, h⟩ := eval_bind_ok (SelectionSortPolicy.readKeyed_onlyReads _) h
  obtain rfl := Except.ok.inj h
  rw [← readKeyed_snd hkeyed]
  exact (List.perm_insertionSort _ keyed).map _

/-- An accumulation takes the candidates from the front, and at least one. -/
theorem accumulateByValue_prefix {target : ℕ} {candidates selected : List OutPoint} {acc : ℕ}
    (h : Program.eval exec (SelectionSortPolicy.accumulateByValue target candidates acc) s =
      .ok (some selected)) : selected <+: candidates ∧ selected ≠ [] := by
  induction candidates generalizing selected acc with
  | nil => cases Except.ok.inj h
  | cons o candidates ih =>
    unfold SelectionSortPolicy.accumulateByValue at h
    rw [eval_getUtxo_bind] at h
    cases hu : s.getUtxo o with
    | none =>
      rw [hu] at h
      cases h
    | some u =>
      rw [hu] at h
      dsimp only at h
      split_ifs at h
      · obtain rfl := Option.some.inj (Except.ok.inj h)
        exact ⟨(List.prefix_cons_inj o).mpr List.nil_prefix, List.cons_ne_nil o []⟩
      · obtain ⟨rest, hrest, h⟩ :=
          eval_bind_ok (SelectionSortPolicy.accumulateByValue_onlyReads _ _ _) h
        obtain ⟨tail, rfl, rfl⟩ := Option.map_eq_some_iff.mp (Except.ok.inj h)
        exact ⟨(List.prefix_cons_inj o).mpr (ih hrest).1, List.cons_ne_nil o tail⟩

theorem firstSelectable_offers (hk : s.WellKeyed) {candidates : List OutPoint} {o : OutPoint}
    (h : Program.eval exec (Txoscope.firstSelectable ctx candidates) s = .ok (some o)) :
    s.Offers ctx o := by
  induction candidates with
  | nil => cases Except.ok.inj h
  | cons first candidates ih =>
    unfold Txoscope.firstSelectable at h
    obtain ⟨selectable, hs, h⟩ :=
      eval_bind_ok (SelectionContext.isSelectableCandidate_onlyReads ctx first) h
    cases selectable with
    | false => exact ih h
    | true =>
      obtain rfl := Option.some.inj (Except.ok.inj h)
      exact isSelectableCandidate_offers hk hs

/-- Inputs that a selector may return. -/
structure Selectable (s : InMemoryStateStore) (ctx : SelectionContext) (inputs : SelectedInputs) :
    Prop where
  nonempty : inputs.outpoints ≠ []
  nodup : inputs.outpoints.Nodup
  offers : ∀ o ∈ inputs.outpoints, s.Offers ctx o
  change : inputs.changeScopeId ∈ ctx.eligibleScopeIds

theorem withChangeScope_selectable {outpoints : List OutPoint} {inputs : SelectedInputs}
    (hnd : outpoints.Nodup) (hall : ∀ o ∈ outpoints, s.Offers ctx o)
    (h : Program.eval exec (withChangeScope outpoints) s = .ok inputs) :
    s.Selectable ctx inputs := by
  cases outpoints with
  | nil => cases h
  | cons first outpoints =>
    unfold withChangeScope at h
    dsimp only at h
    rw [eval_getUtxo_bind] at h
    obtain ⟨u, hu, -, hscope, -⟩ := (hall first List.mem_cons_self).utxo
    rw [hu] at h
    obtain rfl := Except.ok.inj h
    exact ⟨List.cons_ne_nil _ _, hnd, hall, hscope⟩

theorem forEach_requireSelectable (hk : s.WellKeyed) {outpoints : List OutPoint} {r : Unit}
    (h : Program.eval exec (Program.forEach ctx.requireSelectableCandidate outpoints) s = .ok r) :
    ∀ o ∈ outpoints, s.Offers ctx o := by
  induction outpoints with
  | nil => exact fun _ hm => (List.not_mem_nil hm).elim
  | cons o outpoints ih =>
    obtain ⟨u, hu, h⟩ :=
      eval_bind_ok (SelectionContext.requireSelectableCandidate_onlyReads ctx o) h
    exact List.forall_mem_cons.mpr ⟨requireSelectableCandidate_offers hk hu, ih h⟩

theorem Offers.eval_requireSelectableCandidate (hk : s.WellKeyed) {o : OutPoint}
    (h : s.Offers ctx o) : Program.eval exec (ctx.requireSelectableCandidate o) s = .ok () := by
  obtain ⟨⟨u, hu, haccount, hscope, hspendable⟩, hlock⟩ := h
  have havailability := (ManagedUtxo.isPolicySpendable_iff.mp hspendable).1
  rw [← hk.toLedger.utxo o u hu] at hlock
  unfold SelectionContext.requireSelectableCandidate
  rw [eval_getUtxo_bind, hu]
  dsimp only
  rw [if_neg (not_not.mpr haccount), if_neg (not_not.mpr hscope),
    if_neg (not_not.mpr havailability),
    (SelectionContext.isPolicySpendable_onlyReads u).eval_bind reads_snd, eval_isPolicySpendable,
    hspendable, hlock]
  rfl

theorem eval_forEach_requireSelectable (hk : s.WellKeyed) {outpoints : List OutPoint}
    (h : ∀ o ∈ outpoints, s.Offers ctx o) :
    Program.eval exec (Program.forEach ctx.requireSelectableCandidate outpoints) s = .ok () := by
  induction outpoints with
  | nil => rfl
  | cons o outpoints ih =>
    rw [List.forall_mem_cons] at h
    unfold Program.forEach
    rw [(SelectionContext.requireSelectableCandidate_onlyReads ctx o).eval_bind reads_snd,
      h.1.eval_requireSelectableCandidate hk]
    exact ih h.2

/-- Whatever a selector returns is selectable. -/
theorem selectInputs_selectable (hk : s.WellKeyed) {spec : InputSelectionSpec}
    {inputs : SelectedInputs} (hspec : ∀ outpoints, spec = .exactOutpoints outpoints →
      outpoints.Nodup)
    (h : Program.eval exec (selectInputs ctx spec) s = .ok inputs) : s.Selectable ctx inputs := by
  cases spec with
  | targetValue amount =>
    obtain ⟨scope, hscope, h⟩ := eval_bind_ok (SelectionContext.preferredScope_onlyReads ctx) h
    obtain ⟨candidates, hcandidates, h⟩ :=
      eval_bind_ok (SelectionContext.selectableUtxos_onlyReads ctx) h
    obtain ⟨sorted, hsorted, h⟩ :=
      eval_bind_ok (SelectionSortPolicy.sortCandidateIds_onlyReads candidates) h
    obtain ⟨result, hresult, h⟩ :=
      eval_bind_ok (SelectionSortPolicy.accumulateByValue_onlyReads _ _ _) h
    cases result with
    | none => cases h
    | some selected =>
      obtain rfl := Except.ok.inj h
      obtain ⟨hnd, hoffers⟩ := selectableUtxos_offers hk hcandidates
      obtain ⟨htaken, hne⟩ := accumulateByValue_prefix hresult
      have hperm := sortCandidateIds_perm hsorted
      refine ⟨hne, (hperm.nodup_iff.mpr hnd).sublist htaken.sublist, fun o ho => ?_,
        preferredScope_eligible hk hscope⟩
      exact hoffers o (hperm.subset (htaken.subset ho))
  | exactOutpoints outpoints =>
    obtain ⟨u, hu, h⟩ := eval_bind_ok
      (.forEach (fun o => SelectionContext.requireSelectableCandidate_onlyReads ctx o) outpoints) h
    exact withChangeScope_selectable (hspec outpoints rfl) (forEach_requireSelectable hk hu) h
  | firstSelectable candidates =>
    obtain ⟨result, hresult, h⟩ := eval_bind_ok (firstSelectable_onlyReads ctx candidates) h
    cases result with
    | none => cases h
    | some o =>
      refine withChangeScope_selectable (List.nodup_singleton o) (fun o' ho' => ?_) h
      rw [List.mem_singleton.mp ho']
      exact firstSelectable_offers hk hresult

/-! ## What a proposal guarantees -/

theorem eval_eligibleScopes {accountId : AccountId} {required : CapabilitySet}
    (ids : List WalletScopeId) :
    Program.eval exec (Orchestrator.eligibleScopes accountId required ids) s =
      .ok (ids.filter fun id => (s.getScope id).any fun sc =>
        sc.accountId = accountId ∧ sc.capabilities.containsAll required) := by
  induction ids with
  | nil => rfl
  | cons id ids ih =>
    unfold Orchestrator.eligibleScopes
    rw [eval_getScope_bind, (Orchestrator.eligibleScopes_onlyReads _ _ _).eval_bind reads_snd, ih,
      List.filter_cons]
    dsimp only [bind, Except.bind]
    split_ifs <;> rfl

theorem eligibleScopes_grant {accountId : AccountId} {required : CapabilitySet}
    {ids eligible : List WalletScopeId}
    (h : Program.eval exec (Orchestrator.eligibleScopes accountId required ids) s = .ok eligible) :
    ∀ id ∈ eligible, id ∈ ids ∧ ∃ scope, s.getScope id = some scope ∧
      scope.accountId = accountId ∧ required ⊆ scope.capabilities := by
  rw [eval_eligibleScopes] at h
  obtain rfl := Except.ok.inj h
  intro id hid
  obtain ⟨hmem, hgrants⟩ := List.mem_filter.mp hid
  obtain ⟨scope, hget, hscope⟩ := (Option.any_eq_true _ _).mp hgrants
  rw [decide_eq_true_eq, CapabilitySet.containsAll_iff] at hscope
  exact ⟨hmem, scope, hget, hscope⟩

/-- A selection made of selectable inputs in scopes that grant what the request requires. -/
structure Proposed (s : InMemoryStateStore) (req : OperationRequest)
    (selection : OperationSelection) : Prop where
  inputs : ∃ ctx inputs, selection = .fromRequest req inputs ∧ s.Selectable ctx inputs ∧
    ctx.accountId = req.selection.accountId ∧ ∀ id ∈ ctx.eligibleScopeIds,
      OperationSelection.Grants s.getAccount s.getScope req.selection.accountId id
        req.selection.requiredCapabilities

/-- The scopes in the context of a request grant what it requires. -/
theorem proposalContext_grants {request : SelectionRequest}
    (h : Program.eval exec (Orchestrator.proposalContext request) s = .ok ctx) :
    (∃ u, Orchestrator.checkSpec request.intoOperationRequest.selection.spec = .ok u) ∧
      ctx.accountId = request.intoOperationRequest.selection.accountId ∧
      ∀ id ∈ ctx.eligibleScopeIds, OperationSelection.Grants s.getAccount s.getScope
        request.intoOperationRequest.selection.accountId id
        request.intoOperationRequest.selection.requiredCapabilities := by
  unfold Orchestrator.proposalContext at h
  obtain ⟨u, hspec, h⟩ := eval_bind_ok (.ofExcept _) h
  rw [eval_getAccount_bind] at h
  cases ha : s.getAccount request.intoOperationRequest.selection.accountId with
  | none =>
    rw [ha] at h
    cases h
  | some account =>
    rw [ha] at h
    dsimp only at h
    split_ifs at h with hcapable
    · cases h
    · obtain ⟨eligible, heligible, h⟩ :=
        eval_bind_ok (Orchestrator.eligibleScopes_onlyReads _ _ _) h
      split_ifs at h
      · cases h
      · obtain rfl := Except.ok.inj h
        refine ⟨⟨u, hspec⟩, rfl, fun id hid => ?_⟩
        obtain ⟨hmem, scope, hget, howner, hscope⟩ := eligibleScopes_grant heligible id hid
        rw [Bool.not_eq_true', Bool.not_eq_false, CapabilitySet.containsAll_iff] at hcapable
        exact ⟨account, scope, ha, hget, howner, hmem, hcapable, hscope⟩

theorem eval_proposeOperation_of_inputs {request : SelectionRequest} (inputs : SelectedInputs)
    (hctx : Program.eval exec (Orchestrator.proposalContext request) s = .ok ctx)
    (hinputs : Program.eval exec (selectInputs ctx request.intoOperationRequest.selection.spec) s =
      .ok inputs) :
    Program.eval exec (Orchestrator.proposeOperation request) s =
      .ok (.fromRequest request.intoOperationRequest inputs) := by
  rw [Orchestrator.proposeOperation_eq,
    (Orchestrator.proposalContext_onlyReads request).eval_bind reads_snd, hctx]
  change Program.eval exec (selectInputs ctx _ >>= _) s = _
  rw [(selectInputs_onlyReads ctx _).eval_bind reads_snd, hinputs]
  rfl

theorem proposeOperation_proposed (hk : s.WellKeyed) {request : SelectionRequest}
    {selection : OperationSelection}
    (h : Program.eval exec (Orchestrator.proposeOperation request) s = .ok selection) :
    s.Proposed request.intoOperationRequest selection := by
  rw [Orchestrator.proposeOperation_eq] at h
  obtain ⟨ctx, hctx, h⟩ := eval_bind_ok (Orchestrator.proposalContext_onlyReads request) h
  obtain ⟨inputs, hinputs, h⟩ := eval_bind_ok (selectInputs_onlyReads _ _) h
  obtain rfl := Except.ok.inj h
  obtain ⟨⟨u, hspec⟩, haccount, hgrants⟩ := proposalContext_grants hctx
  refine ⟨ctx, inputs, rfl, selectInputs_selectable hk (fun outpoints heq => ?_) hinputs, haccount,
    hgrants⟩
  rw [heq] at hspec
  exact (Orchestrator.checkSpec_exact_eq_ok_iff.mp hspec).2

/-- Every check of a commit passes, and no input is bound or locked yet. -/
structure Ready (s : InMemoryStateStore) (selection : OperationSelection) : Prop where
  authorised : selection.Authorised s.getAccount s.getScope s.getUtxo
  free : ∀ o ∈ selection.selectedOutpoints,
    (∃ u, s.getUtxo o = some u ∧ u.isPolicySpendable = true) ∧ s.getLock o = none

/-- A selection that is ready may be applied, in any state with the same records. -/
theorem Ready.admits {selection : OperationSelection} (h : s.Ready selection) (owner : String)
    {l : Ledger} (haccount : l.account = s.getAccount) (hscope : l.scope = s.getScope)
    (hcell : l.cell = s.cell)
    (hintent : ∀ i, l.intent selection.operationId = some i →
      i.status ≠ .failed ∧ i.selection = selection)
    (hoperation : l.operation selection.operationId = none) :
    l.Admits ⟨selection, .selected, owner⟩ := by
  have hutxo : l.utxo = s.getUtxo := by
    funext o
    unfold Ledger.utxo
    rw [hcell]
    rfl
  refine ⟨hintent, fun op hop => ?_, ?_, fun e he => ?_⟩
  · rw [hoperation] at hop
    cases hop
  · rw [haccount, hscope, hutxo]
    exact h.authorised
  · have ho := (h.authorised.wellFormed.mem_iff e.outpoint).mpr (List.mem_map.mpr ⟨e, he, rfl⟩)
    obtain ⟨⟨u, hu, hspendable⟩, hlock⟩ := h.free e.outpoint ho
    rw [hcell]
    exact .free u hu hspendable hlock

/-- Whatever is proposed is ready. -/
theorem Proposed.ready (hk : s.WellKeyed) {request : SelectionRequest}
    {selection : OperationSelection} (h : s.Proposed request.intoOperationRequest selection) :
    s.Ready selection := by
  obtain ⟨ctx, inputs, rfl, hinputs, haccountId, hgrants⟩ := h.inputs
  have hmem : ∀ e ∈ (OperationSelection.fromRequest request.intoOperationRequest inputs).effects,
      e.outpoint ∈ inputs.outpoints ∧
        e.purpose = request.intoOperationRequest.locking.lockPurpose := by
    intro e he
    obtain ⟨o, ho, rfl⟩ := List.mem_map.mp he
    exact ⟨ho, rfl⟩
  have houtpoints : (OperationSelection.fromRequest request.intoOperationRequest
      inputs).effectOutpoints = inputs.outpoints := by
    unfold OperationSelection.effectOutpoints OperationSelection.fromRequest
    rw [List.map_map]
    exact List.map_id _
  refine ⟨⟨.of_effects houtpoints hinputs.nonempty hinputs.nodup, ?_, ?_⟩, fun o ho => ?_⟩
  · intro e he
    obtain ⟨ho, hpurpose⟩ := hmem e he
    obtain ⟨u, hu, huaccount, huscope, -⟩ := (hinputs.offers _ ho).utxo
    rw [hpurpose, ← request.requiredCapabilities_eq]
    exact ⟨u, hu, huaccount ▸ haccountId ▸ hgrants _ huscope⟩
  · obtain ⟨-, scope, -, hget, howner, -⟩ := hgrants _ hinputs.change
    refine ⟨scope, hget, ?_⟩
    rw [hk.scope _ scope hget, howner]
    refine (hgrants _ hinputs.change).mono (OperationSelection.changeCapabilities_subset fun e he => ?_)
    rw [(hmem e he).2, request.requiredChangeCapabilities_eq]
  · obtain ⟨⟨u, hu, -, -, hspendable⟩, hlock⟩ := hinputs.offers o ho
    exact ⟨⟨u, hu, hspendable⟩, hlock⟩

/-! ## Preparing what was proposed -/

/-- Exactly the inputs of `selection` went from unlocked to locked, and bound to its operation in
`Selected`; beyond them only the operation and its intent were written. -/
structure Prepared (s : InMemoryStateStore) (selection : OperationSelection)
    (s' : InMemoryStateStore) : Prop where
  reserved : ∀ o ∈ selection.selectedOutpoints, s.getLock o = none ∧ ∃ u k,
    s.getUtxo o = some u ∧ u.operationBinding = none ∧
      s'.getUtxo o = some (u.reserve selection.operationId .selected) ∧
      s'.getLock o = some k ∧ k.operationId = selection.operationId
  others : ∀ o ∉ selection.selectedOutpoints,
    s'.getUtxo o = s.getUtxo o ∧ s'.getLock o = s.getLock o
  operation : ∃ op, op.phase = .selected ∧
    s'.getOperation = Function.update s.getOperation selection.operationId (some op)
  intent : ∃ i, i.selection = selection ∧ i.status = .committed ∧
    s'.getIntent = Function.update s.getIntent selection.operationId (some i)
  account : s'.getAccount = s.getAccount
  scope : s'.getScope = s.getScope

theorem Proposed.operationId_eq {req : OperationRequest} {selection : OperationSelection}
    (h : s.Proposed req selection) : selection.operationId = req.operationId := by
  obtain ⟨ctx, inputs, rfl, -⟩ := h.inputs
  rfl

/-- A selection of a new operation that is ready is recorded, applied and committed. -/
theorem Ready.applySelection {selection : OperationSelection} (h : s.Ready selection)
    (owner : String) (hi : s.getIntent selection.operationId = none)
    (hop : s.getOperation selection.operationId = none) :
    ∃ i s₁ s', Program.run exec (StoreCall.persistIntent selection).invoke s = (.ok i, s₁) ∧
      Program.run exec (Orchestrator.commitRecordedIntent owner selection.operationId) s₁ =
        (.ok (), s') ∧ s.Prepared selection s' ∧
          ∀ e ∈ selection.effects, ∃ k, s'.getLock e.outpoint = some k ∧ k.purpose = e.purpose ∧
            k.expiresAt = selection.expiresAt := by
  obtain ⟨i, s₁, hpersist, hsel, hp, hrecorded⟩ := exec_persistIntent_fresh hi
  have hi₁ : s₁.getIntent selection.operationId = some i :=
    (congrFun (congrArg Ledger.intent hrecorded) _).trans (Function.update_self _ _ _)
  have hadmits : s₁.toLedger.Admits ⟨selection, .selected, owner⟩ := by
    rw [hrecorded]
    refine h.admits owner rfl rfl rfl (fun j hj => ?_) hop
    cases (Function.update_self selection.operationId (some i) s.getIntent).symm.trans hj
    exact ⟨by rw [hp]; decide, hsel⟩
  have hcommit := commitSelection_of_admits hadmits
  have happlied := (toLedger_applyBatch_of_admits hadmits).2
  obtain ⟨s₂, hs₂⟩ : ∃ s₂, (s₁.applyBatch ⟨selection, .selected, owner⟩).2 = s₂ := ⟨_, rfl⟩
  rw [hs₂] at hcommit happlied
  have hi₂ : s₂.getIntent selection.operationId = some i :=
    (congrFun (congrArg Ledger.intent happlied) _).trans hi₁
  obtain ⟨s₃, hmark, hmarked⟩ := exec_markIntentCommitted hi₂ hp
  have hcell : s₃.cell = s.toLedger.nextTick.holdCells ⟨selection, .selected, owner⟩ := by
    refine (congrArg Ledger.cell hmarked).trans ((congrArg Ledger.cell happlied).trans ?_)
    rw [hrecorded]
    rfl
  have hoperation : s₃.getOperation = Function.update s.getOperation selection.operationId
      (some ⟨selection.operationId, .selected, s₁.nextTick.tick, selection.expiresAt⟩) := by
    refine (congrArg Ledger.operation hmarked).trans
      ((congrArg Ledger.operation happlied).trans ?_)
    exact congrArg (Function.update · _ _) (congrArg Ledger.operation hrecorded)
  have hintent : s₃.getIntent = Function.update s.getIntent selection.operationId
      (some { i with status := .committed }) := by
    have h₂ : s₂.getIntent = Function.update s.getIntent selection.operationId (some i) :=
      (congrArg Ledger.intent happlied).trans (congrArg Ledger.intent hrecorded)
    refine (congrArg Ledger.intent hmarked).trans ?_
    change Function.update s₂.getIntent _ _ = _
    rw [h₂, Function.update_idem]
  -- the cell of an input before and after
  have hinput : ∀ e ∈ selection.effects, s.getLock e.outpoint = none ∧ ∃ u,
      s.getUtxo e.outpoint = some u ∧ u.operationBinding = none ∧ s₃.cell e.outpoint =
        ⟨some (u.reserve selection.operationId .selected),
          some (newLock ⟨selection, .selected, owner⟩ s.toLedger.nextTick.tick u e.purpose)⟩ := by
    intro e he
    obtain ⟨⟨u, hu, hspendable⟩, hlock⟩ := h.free e.outpoint
      ((h.authorised.wellFormed.mem_iff _).mpr (List.mem_map.mpr ⟨e, he, rfl⟩))
    have hutxo : (s.toLedger.nextTick.cell e.outpoint).utxo = some u := hu
    have hheld := congrFun hcell e.outpoint
    rcases s.toLedger.nextTick.holdCells_cases ⟨selection, .selected, owner⟩ e.outpoint with
      ⟨e', he', heq', heq⟩ | ⟨hnone, -⟩
    · have hsame : e' = e :=
        List.inj_on_of_nodup_map h.authorised.wellFormed.effects_nodup he' he heq'
      subst e'
      rw [heq, Cell.hold_of_free hutxo hspendable] at hheld
      exact ⟨hlock, u, hu, (ManagedUtxo.isPolicySpendable_iff.mp hspendable).2.2.1, hheld⟩
    · exact (hnone e he rfl).elim
  refine ⟨i, s₁, s₃, hpersist, ?_, ⟨fun o ho => ?_, fun o ho => ?_, ⟨_, rfl, hoperation⟩,
    ⟨{ i with status := .committed }, hsel, rfl, hintent⟩, ?_, ?_⟩, fun e he => ?_⟩
  · exact ((commitRecordedIntent_pending _ hi₁ hp).1 s₂ (hsel ▸ hcommit)).trans hmark
  · obtain ⟨e, he, rfl⟩ := List.mem_map.mp ((h.authorised.wellFormed.mem_iff o).mp ho)
    obtain ⟨hlock, u, hu, hbinding, hheld⟩ := hinput e he
    exact ⟨hlock, u, _, hu, hbinding, congrArg Cell.utxo hheld, congrArg Cell.lock hheld, rfl⟩
  · have hheld := congrFun hcell o
    rcases s.toLedger.nextTick.holdCells_cases ⟨selection, .selected, owner⟩ o with
      ⟨e, he, rfl, -⟩ | ⟨-, heq⟩
    · exact (ho ((hadmits.authorised.wellFormed.mem_iff _).mpr
        (List.mem_map.mpr ⟨e, he, rfl⟩))).elim
    · rw [heq] at hheld
      exact ⟨congrArg Cell.utxo hheld, congrArg Cell.lock hheld⟩
  · exact (congrArg Ledger.account hmarked).trans
      ((congrArg Ledger.account happlied).trans (congrArg Ledger.account hrecorded))
  · exact (congrArg Ledger.scope hmarked).trans
      ((congrArg Ledger.scope happlied).trans (congrArg Ledger.scope hrecorded))
  · obtain ⟨-, u, -, -, hheld⟩ := hinput e he
    exact ⟨_, congrArg Cell.lock hheld, rfl, rfl⟩

/-- A proposal for a new operation is prepared. -/
theorem prepareOperation_ok (hk : s.WellKeyed) (owner : String) {request : SelectionRequest}
    (hi : s.getIntent request.operationId = none)
    (hop : s.getOperation request.operationId = none) {selection : OperationSelection}
    (hok : Program.eval exec (Orchestrator.proposeOperation request) s = .ok selection) :
    ∃ s', Program.run exec (Orchestrator.prepareOperation owner request) s = (.ok selection, s') ∧
      s.Proposed request.intoOperationRequest selection ∧ s.Prepared selection s' ∧
        ∀ e ∈ selection.effects, ∃ k, s'.getLock e.outpoint = some k ∧ k.purpose = e.purpose ∧
          k.expiresAt = selection.expiresAt := by
  have hpropose := Program.OnlyCalls.run_eq reads_snd
    (Orchestrator.proposeOperation_onlyReads request) s
  rw [hok] at hpropose
  have hproposed := proposeOperation_proposed hk hok
  have hid : selection.operationId = request.operationId := hproposed.operationId_eq
  obtain ⟨i, s₁, s', hpersist, hcommit, hprepared, hlocks⟩ :=
    (hproposed.ready hk).applySelection owner (hid ▸ hi) (hid ▸ hop)
  have hpending : Program.run exec (Orchestrator.preparePendingOperation request) s =
      (.ok selection, s₁) := by
    unfold Orchestrator.preparePendingOperation
    rw [Program.run_bind_ok _ hpropose]
    exact Program.run_bind_ok _ hpersist
  refine ⟨s', ?_, hproposed, hprepared, hlocks⟩
  unfold Orchestrator.prepareOperation
  rw [Program.run_bind_ok _ hpending, Program.run_bind_ok _ hcommit]
  rfl

/-- A proposal that is refused is refused by the preparation, which then changes nothing. -/
theorem prepareOperation_error (owner : String) {request : SelectionRequest} {e : DomainError}
    (herror : Program.eval exec (Orchestrator.proposeOperation request) s = .error e) :
    Program.run exec (Orchestrator.prepareOperation owner request) s = (.error e, s) := by
  have hpropose := Program.OnlyCalls.run_eq reads_snd
    (Orchestrator.proposeOperation_onlyReads request) s
  rw [herror] at hpropose
  exact Program.run_bind_error _ (Program.run_bind_error _ hpropose)

/-- What can be proposed for a new operation can be prepared, and a refused proposal is refused
by the preparation with the same error, which then changes nothing. -/
theorem prepare_of_propose {rules : Ledger.Rules} (h : Run rules empty s) (owner : String)
    (request : SelectionRequest) (hi : s.getIntent request.operationId = none)
    (hop : s.getOperation request.operationId = none) :
    (∀ selection, (Program.run exec (Orchestrator.proposeOperation request) s).1 = .ok selection →
      ∃ s', Program.run exec (Orchestrator.prepareOperation owner request) s =
        (.ok selection, s') ∧ selection.operationId = request.operationId ∧
          s.Prepared selection s') ∧
    ∀ e, (Program.run exec (Orchestrator.proposeOperation request) s).1 = .error e →
      Program.run exec (Orchestrator.prepareOperation owner request) s = (.error e, s) := by
  constructor
  · intro selection hok
    obtain ⟨s', hrun, hproposed, hprepared, -⟩ := prepareOperation_ok h.wellKeyed owner hi hop hok
    exact ⟨s', hrun, hproposed.operationId_eq, hprepared⟩
  · intro e herror
    exact prepareOperation_error owner herror

namespace Sample

/-- One account with one scope and one output, which nothing reserves. -/
def funded : InMemoryStateStore := Program.after exec (calls.take 3) empty

theorem funded_run : Run freeRules empty funded := Program.steps_after (by decide)

end Sample

theorem prepare_of_propose_sample :
    ∃ s', Program.run exec (Orchestrator.prepareOperation "owner"
        (.btcSend Sample.operationId Sample.accountId 500)) Sample.funded =
      (.ok Sample.selection, s') ∧ Sample.selection.operationId = Sample.operationId ∧
        Sample.funded.Prepared Sample.selection s' :=
  (prepare_of_propose Sample.funded_run "owner"
    (.btcSend Sample.operationId Sample.accountId 500) rfl rfl).1 Sample.selection rfl

end InMemoryStateStore

end Txoscope
