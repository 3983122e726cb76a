import Txoscope.Core.Operation

/-!
# What a validated selection guarantees

`validateStructure` succeeds exactly on the selections whose inputs are non-empty, distinct and
equal as a set to the outpoints of the effects, which are distinct; `validateCapabilities` adds the
capabilities of every input and of the change scope. The readers are pure here: this is the check
as a store makes it inside its atomic write.
-/

namespace Txoscope

namespace OperationSelection

/-- The outpoints of the effects. -/
def effectOutpoints (selection : OperationSelection) : List OutPoint :=
  selection.effects.map (·.outpoint)

/-! ## Structure -/

theorem collectEffects_eq_ok_iff {effects : List SelectionEffect} {seen result : Finset OutPoint} :
    collectEffects effects seen = .ok result ↔
      (effects.map (·.outpoint)).Nodup ∧ (∀ e ∈ effects, e.outpoint ∉ seen) ∧
        result = seen ∪ (effects.map (·.outpoint)).toFinset := by
  induction effects generalizing seen with
  | nil => simp [collectEffects, eq_comm]
  | cons e effects ih =>
    unfold collectEffects
    split_ifs with h
    · simp [h]
    · rw [ih, List.map_cons, List.nodup_cons, List.toFinset_cons]
      constructor
      · rintro ⟨hnd, hseen, rfl⟩
        refine ⟨⟨?_, hnd⟩, ?_, ?_⟩
        · intro hmem
          obtain ⟨e', he', heq⟩ := List.mem_map.mp hmem
          exact hseen e' he' (heq ▸ Finset.mem_insert_self _ _)
        · rintro e' he'
          rcases List.mem_cons.mp he' with rfl | he'
          · exact h
          · exact fun hm => hseen e' he' (Finset.mem_insert_of_mem hm)
        · ext o
          simp only [Finset.mem_union, Finset.mem_insert]
          tauto
      · rintro ⟨⟨hnotin, hnd⟩, hseen, rfl⟩
        refine ⟨hnd, ?_, ?_⟩
        · intro e' he' hm
          rcases Finset.mem_insert.mp hm with heq | hm
          · exact hnotin (List.mem_map.mpr ⟨e', he', heq⟩)
          · exact hseen e' (List.mem_cons_of_mem _ he') hm
        · ext o
          simp only [Finset.mem_union, Finset.mem_insert]
          tauto

/-- The shape of a selection whose structure is valid. -/
structure WellFormed (selection : OperationSelection) : Prop where
  nonempty : selection.selectedOutpoints ≠ []
  nodup : selection.selectedOutpoints.Nodup
  effects_nodup : selection.effectOutpoints.Nodup
  mem_iff : ∀ o, o ∈ selection.selectedOutpoints ↔ o ∈ selection.effectOutpoints

/-- A selection with one effect for each of its inputs. -/
theorem WellFormed.of_effects {selection : OperationSelection}
    (h : selection.effectOutpoints = selection.selectedOutpoints)
    (hne : selection.selectedOutpoints ≠ []) (hnd : selection.selectedOutpoints.Nodup) :
    selection.WellFormed :=
  ⟨hne, hnd, h ▸ hnd, fun o => by rw [h]⟩

theorem card_toFinset_eq_length_iff {l : List OutPoint} :
    l.toFinset.card = l.length ↔ l.Nodup := by
  constructor
  · intro h
    have hlen : l.length ≤ l.dedup.length := by rw [← h, List.card_toFinset]
    rw [← List.dedup_eq_self]
    exact (List.dedup_sublist l).eq_of_length_le hlen
  · exact List.toFinset_card_of_nodup

theorem validateStructure_eq_ok_iff {selection : OperationSelection} :
    selection.validateStructure = .ok () ↔ selection.WellFormed := by
  unfold validateStructure
  cases h : collectEffects selection.effects ∅ with
  | error e =>
    simp only [bind, Except.bind, reduceCtorEq, false_iff]
    intro hw
    have hok : collectEffects selection.effects ∅ =
        .ok (∅ ∪ (selection.effects.map (·.outpoint)).toFinset) :=
      collectEffects_eq_ok_iff.mpr ⟨hw.effects_nodup, fun _ _ => Finset.notMem_empty _, rfl⟩
    rw [h] at hok
    cases hok
  | ok effects =>
    obtain ⟨hnd, -, rfl⟩ := collectEffects_eq_ok_iff.mp h
    simp only [bind, Except.bind, Finset.empty_union]
    have hset : selection.selectedOutpoints.toFinset =
        (selection.effects.map (·.outpoint)).toFinset ↔
          ∀ o, o ∈ selection.selectedOutpoints ↔ o ∈ selection.effectOutpoints := by
      rw [Finset.ext_iff]
      simp only [List.mem_toFinset]
      rfl
    split_ifs with hif
    · constructor
      · intro hthrow
        cases hthrow
      · intro hw
        rcases hif with hif | hif | hif
        · exact (hw.nonempty (List.toFinset_eq_empty_iff _ |>.mp hif)).elim
        · exact (hif (card_toFinset_eq_length_iff.mpr hw.nodup)).elim
        · exact (hif (hset.mpr hw.mem_iff)).elim
    · rw [not_or, not_or, not_not, not_not] at hif
      refine ⟨fun _ => ⟨?_, ?_, hnd, hset.mp hif.2.2⟩, fun _ => rfl⟩
      · exact fun hnil => hif.1 (by rw [hnil]; rfl)
      · exact card_toFinset_eq_length_iff.mp hif.2.1

/-! ## Capabilities -/

section Readers

variable {getAccount : AccountId → Option Account} {getScope : WalletScopeId → Option WalletScope}
  {getUtxo : OutPoint → Option ManagedUtxo}

/-- The account exists, owns and lists the scope, and both grant `required`. -/
def Grants (getAccount : AccountId → Option Account)
    (getScope : WalletScopeId → Option WalletScope) (accountId : AccountId)
    (scopeId : WalletScopeId) (required : CapabilitySet) : Prop :=
  ∃ account scope, getAccount accountId = some account ∧ getScope scopeId = some scope ∧
    scope.accountId = accountId ∧ scopeId ∈ account.scopes ∧
      required ⊆ account.capabilities ∧ required ⊆ scope.capabilities

theorem validateScope_eq_ok_iff {accountId : AccountId} {scopeId : WalletScopeId}
    {required : CapabilitySet} :
    validateScope (m := DomainResult) (fun id => .ok (getAccount id)) (fun id => .ok (getScope id))
      accountId scopeId required = .ok () ↔
        Grants getAccount getScope accountId scopeId required := by
  unfold validateScope Grants
  simp only [bind, Except.bind]
  cases ha : getAccount accountId with
  | none =>
    refine ⟨fun h => (nomatch h), ?_⟩
    rintro ⟨account, -, h, -⟩
    cases h
  | some account =>
    cases hs : getScope scopeId with
    | none =>
      dsimp only
      refine ⟨fun h => ?_, ?_⟩
      · split_ifs at h
      · rintro ⟨-, scope, -, h, -⟩
        cases h
    | some scope =>
      simp only [Option.some.injEq, exists_and_left, exists_eq_left']
      rw [← CapabilitySet.containsAll_iff, ← CapabilitySet.containsAll_iff]
      split_ifs with hc ho hsc
      · refine ⟨fun h => (nomatch h), fun h => ?_⟩
        rw [h.2.2.1] at hc
        cases hc
      · exact ⟨fun h => (nomatch h), fun h => (ho.elim (fun h' => h' h.1) fun h' => h' h.2.1).elim⟩
      · refine ⟨fun h => (nomatch h), fun h => ?_⟩
        rw [h.2.2.2] at hsc
        cases hsc
      · rw [not_or, not_not, not_not] at ho
        exact ⟨fun _ => ⟨ho.1, ho.2, by simpa using hc, by simpa using hsc⟩, fun _ => rfl⟩

theorem validateEffects_eq_ok_iff {effects : List SelectionEffect}
    {changeRequired result : CapabilitySet} :
    validateEffects (m := DomainResult) (fun id => .ok (getAccount id))
      (fun id => .ok (getScope id)) (fun id => .ok (getUtxo id)) effects changeRequired =
        .ok result ↔
      (∀ e ∈ effects, ∃ u, getUtxo e.outpoint = some u ∧
        Grants getAccount getScope u.accountId u.scopeId e.purpose.requiredCapabilities) ∧
      result = effects.foldl (fun acc e => acc ∪ e.purpose.requiredChangeCapabilities)
        changeRequired := by
  induction effects generalizing changeRequired with
  | nil => simp [validateEffects, pure, Except.pure, eq_comm]
  | cons e effects ih =>
    unfold validateEffects
    simp only [bind, Except.bind]
    cases hu : getUtxo e.outpoint with
    | none => simp [hu, throw, throwThe, MonadExceptOf.throw]
    | some u =>
      simp only
      cases hv : validateScope (m := DomainResult) (fun id => .ok (getAccount id))
          (fun id => .ok (getScope id)) u.accountId u.scopeId e.purpose.requiredCapabilities with
      | error err =>
        have hno : ¬ Grants getAccount getScope u.accountId u.scopeId
            e.purpose.requiredCapabilities := by
          rw [← validateScope_eq_ok_iff, hv]
          exact fun h => by cases h
        simp [hu, hno]
      | ok v =>
        have hyes := validateScope_eq_ok_iff.mp hv
        simp only [ih, List.foldl_cons, List.forall_mem_cons]
        constructor
        · rintro ⟨hall, hres⟩
          exact ⟨⟨⟨u, hu, hyes⟩, hall⟩, hres⟩
        · rintro ⟨⟨-, hall⟩, hres⟩
          exact ⟨hall, hres⟩

/-- The capabilities the change of a selection must be granted. -/
def changeCapabilities (selection : OperationSelection) : CapabilitySet :=
  selection.effects.foldl (fun acc e => acc ∪ e.purpose.requiredChangeCapabilities) ∅

/-- What `validateCapabilities` establishes about a selection. -/
structure Authorised (selection : OperationSelection)
    (getAccount : AccountId → Option Account) (getScope : WalletScopeId → Option WalletScope)
    (getUtxo : OutPoint → Option ManagedUtxo) : Prop where
  wellFormed : selection.WellFormed
  effects : ∀ e ∈ selection.effects, ∃ u, getUtxo e.outpoint = some u ∧
    Grants getAccount getScope u.accountId u.scopeId e.purpose.requiredCapabilities
  change : ∃ scope, getScope selection.changeScopeId = some scope ∧
    Grants getAccount getScope scope.accountId scope.id selection.changeCapabilities

theorem validateCapabilities_eq_ok_iff {selection : OperationSelection} :
    selection.validateCapabilities (m := DomainResult) (fun id => .ok (getAccount id))
      (fun id => .ok (getScope id)) (fun id => .ok (getUtxo id)) = .ok () ↔
        selection.Authorised getAccount getScope getUtxo := by
  unfold validateCapabilities
  cases hst : selection.validateStructure with
  | error e =>
    refine ⟨fun h => (nomatch h), fun h => ?_⟩
    rw [validateStructure_eq_ok_iff.mpr h.wellFormed] at hst
    cases hst
  | ok v =>
    have hw := validateStructure_eq_ok_iff.mp hst
    simp only [bind, Except.bind]
    cases hv : validateEffects (m := DomainResult) (fun id => .ok (getAccount id))
        (fun id => .ok (getScope id)) (fun id => .ok (getUtxo id)) selection.effects ∅ with
    | error err =>
      refine ⟨fun h => (nomatch h), fun h => ?_⟩
      rw [validateEffects_eq_ok_iff.mpr ⟨h.effects, rfl⟩] at hv
      cases hv
    | ok change =>
      obtain ⟨heffects, rfl⟩ := validateEffects_eq_ok_iff.mp hv
      cases hs : getScope selection.changeScopeId with
      | none =>
        refine ⟨fun h => (nomatch h), fun h => ?_⟩
        obtain ⟨scope, hscope, -⟩ := h.change
        rw [hs] at hscope
        cases hscope
      | some scope =>
        refine Iff.trans (@validateScope_eq_ok_iff getAccount _ _ _ _) ?_
        refine ⟨fun h => ⟨hw, heffects, scope, hs, h⟩, fun h => ?_⟩
        obtain ⟨scope', hscope', hgrants⟩ := h.change
        rw [hs] at hscope'
        cases hscope'
        exact hgrants

end Readers

end OperationSelection

end Txoscope
