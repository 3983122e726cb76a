import Mathlib.Algebra.GroupWithZero.Nat
import Mathlib.Data.List.Sort

/-!
# Covering a target from sorted items

Items of some weight are taken in a sorted order, and at least one, until their total reaches a
target. What is taken is described by `Covers`, and it does not depend on the order in which tied
items are listed unless a tie is reached (`take_perm`, `take_reverse_ne`).
-/

namespace Cover

variable {α : Type} (weight : α → ℕ)

/-- The total weight. -/
def total (as : List α) : ℕ := (as.map weight).sum

/-- Takes items from the front until the total, with what was gathered before, reaches `target`. -/
def take (target : ℕ) : List α → ℕ → Option (List α)
  | [], _ => none
  | a :: as, gathered =>
    if target ≤ gathered + weight a then some [a]
    else (take target as (gathered + weight a)).map (a :: ·)

variable {weight} {target : ℕ} {as bs chosen : List α}

@[simp] theorem total_nil : total weight [] = 0 := rfl

@[simp] theorem total_cons (a : α) (as : List α) :
    total weight (a :: as) = weight a + total weight as := List.sum_cons

theorem total_perm (h : as.Perm bs) : total weight as = total weight bs := (h.map _).sum_nat

theorem total_le_of_sublist (h : as.Sublist bs) : total weight as ≤ total weight bs := by
  induction h with
  | slnil => exact le_rfl
  | cons a h ih =>
    rw [total_cons]
    omega
  | cons_cons a h ih =>
    rw [total_cons, total_cons]
    omega

theorem total_le_of_subset (hnd : as.Nodup) (h : as ⊆ bs) : total weight as ≤ total weight bs := by
  obtain ⟨cs, hperm, hsub⟩ := List.subperm_of_subset hnd h
  rw [← total_perm hperm]
  exact total_le_of_sublist hsub

/-! ## What is taken -/

theorem take_eq_none_iff {gathered : ℕ} :
    take weight target as gathered = none ↔ as = [] ∨ gathered + total weight as < target := by
  induction as generalizing gathered with
  | nil => exact iff_of_true rfl (.inl rfl)
  | cons a as ih =>
    unfold take
    rw [total_cons]
    split_ifs with h
    · refine iff_of_false (fun h => by cases h) ?_
      rintro (h' | h')
      · cases h'
      · omega
    · rw [Option.map_eq_none_iff, ih]
      constructor
      · rintro (rfl | h')
        · right
          rw [total_nil]
          omega
        · right
          omega
      · rintro (h' | h')
        · cases h'
        · right
          omega

/-- A prefix is taken that reaches the target, and does not without its last item. -/
theorem take_eq_some {gathered : ℕ} (h : take weight target as gathered = some chosen) :
    chosen <+: as ∧ chosen ≠ [] ∧ target ≤ gathered + total weight chosen ∧
      (1 < chosen.length → gathered + total weight chosen.dropLast < target) := by
  induction as generalizing gathered chosen with
  | nil => cases h
  | cons a as ih =>
    unfold take at h
    split_ifs at h with hreached
    · obtain rfl := Option.some.inj h
      refine ⟨(List.prefix_cons_inj a).mpr List.nil_prefix, List.cons_ne_nil a [], ?_, ?_⟩
      · rw [total_cons, total_nil]
        omega
      · exact fun hlength => (Nat.lt_irrefl 1 hlength).elim
    · obtain ⟨rest, hrest, rfl⟩ := Option.map_eq_some_iff.mp h
      obtain ⟨hfront, hne, henough, hminimal⟩ := ih hrest
      refine ⟨(List.prefix_cons_inj a).mpr hfront, List.cons_ne_nil a rest, ?_, fun _ => ?_⟩
      · rw [total_cons]
        omega
      · rw [List.dropLast_cons_of_ne_nil hne, total_cons]
        by_cases hlength : 1 < rest.length
        · have := hminimal hlength
          omega
        · have hone : rest.length = 1 := by
            have := List.length_pos_iff.mpr hne
            omega
          obtain ⟨b, rfl⟩ := List.length_eq_one_iff.mp hone
          rw [List.dropLast_singleton, total_nil]
          omega

/-! ## Sorted items -/

variable (le : α → α → Prop) (weight) in
/-- The smallest items, in order, without a surplus last one. -/
structure Covers (items : List α) (target : ℕ) (chosen : List α) : Prop where
  nonempty : chosen ≠ []
  nodup : chosen.Nodup
  mem : ∀ a ∈ chosen, a ∈ items
  sorted : chosen.Pairwise le
  enough : target ≤ total weight chosen
  minimal : 1 < chosen.length → total weight chosen.dropLast < target
  least : ∀ a ∈ items, a ∉ chosen → ∀ c ∈ chosen, le c a

variable {le : α → α → Prop} {items items' : List α} [DecidableRel le]

variable (le weight) in
/-- An item is reached: it is among the smallest, or the smaller ones do not reach the target. -/
def Reached (items : List α) (target : ℕ) (a : α) : Prop :=
  (∀ c ∈ items, le a c) ∨ total weight (items.filter fun c => ¬ le a c) < target

variable (le weight) in
/-- The target can be reached, and an item is reached that is tied with another one. -/
def TieReached (items : List α) (target : ℕ) : Prop :=
  target ≤ total weight items ∧ ∃ a ∈ items, Reached weight le items target a ∧
    ∃ b ∈ items, b ≠ a ∧ le a b ∧ le b a

instance [DecidableEq α] (a : α) : Decidable (Reached weight le items target a) :=
  inferInstanceAs (Decidable (_ ∨ _))

instance [DecidableEq α] : Decidable (TieReached weight le items target) :=
  inferInstanceAs (Decidable (_ ∧ _))

omit [DecidableRel le] in
theorem Covers.perm (hperm : items.Perm items') (h : Covers weight le items target chosen) :
    Covers weight le items' target chosen :=
  { h with
    mem := fun a ha => hperm.subset (h.mem a ha)
    least := fun a ha => h.least a (hperm.symm.subset ha) }

omit [DecidableRel le] in
theorem Covers.le_total (h : Covers weight le items target chosen) :
    target ≤ total weight items :=
  h.enough.trans (total_le_of_subset h.nodup h.mem)

theorem tieReached_perm (hperm : items.Perm items') :
    TieReached weight le items target → TieReached weight le items' target := by
  rintro ⟨htotal, a, ha, hreached, b, hb, htied⟩
  refine ⟨total_perm hperm ▸ htotal, a, hperm.subset ha, ?_, b, hperm.subset hb, htied⟩
  refine hreached.imp (fun hleast c hc => hleast c (hperm.symm.subset hc)) fun hlt => ?_
  rwa [← total_perm (hperm.filter _)]

section Total

variable [Std.Total le]

omit [DecidableRel le] in
theorem le_refl_of_total (a : α) : le a a := (Std.Total.total a a).elim id id

/-- What is taken was reached. -/
theorem Covers.reached (h : Covers weight le items target chosen) (hnd : items.Nodup) {a : α}
    (ha : a ∈ chosen) : Reached weight le items target a := by
  obtain ⟨front, last, rfl⟩ := (List.eq_nil_or_concat' chosen).resolve_left h.nonempty
  by_cases hleast : ∀ c ∈ items, le a c
  · exact .inl hleast
  · right
    have hlast : le a last := by
      rcases List.mem_append.mp ha with ha | ha
      · exact (List.pairwise_append.mp h.sorted).2.2 a ha last (List.mem_singleton_self _)
      · rw [List.mem_singleton.mp ha]
        exact le_refl_of_total last
    -- whatever is smaller was taken before the last item
    have hsmaller : (items.filter fun c => ¬ le a c) ⊆ front := by
      intro c hc
      obtain ⟨hc, hlt⟩ := List.mem_filter.mp hc
      rw [decide_eq_true_eq] at hlt
      by_cases hmem : c ∈ front ++ [last]
      · rcases List.mem_append.mp hmem with hmem | hmem
        · exact hmem
        · rw [List.mem_singleton.mp hmem] at hlt
          exact (hlt hlast).elim
      · exact (hlt (h.least c hc hmem a ha)).elim
    simp only [not_forall] at hleast
    obtain ⟨c, hc, hlt⟩ := hleast
    have hfront : c ∈ front := hsmaller (List.mem_filter.mpr ⟨hc, decide_eq_true hlt⟩)
    have hminimal := h.minimal (by
      rw [List.length_append, List.length_singleton]
      have := List.length_pos_of_mem hfront
      omega)
    rw [List.dropLast_concat] at hminimal
    exact (total_le_of_subset (hnd.filter _) hsmaller).trans_lt hminimal

/-- Some item that is tied with a reached one is taken. -/
theorem Covers.exists_tied (h : Covers weight le items target chosen) {a : α} (ha : a ∈ items)
    (hreached : Reached weight le items target a) : ∃ c ∈ chosen, le a c ∧ le c a := by
  by_contra hnone
  simp only [not_exists, not_and] at hnone
  have hnot : a ∉ chosen := fun hmem => hnone a hmem (le_refl_of_total a) (le_refl_of_total a)
  have hsmaller : chosen ⊆ items.filter fun c => ¬ le a c := by
    intro c hc
    refine List.mem_filter.mpr ⟨h.mem c hc, decide_eq_true fun hle => ?_⟩
    exact hnone c hc hle (h.least a ha hnot c hc)
  rcases hreached with hleast | hlt
  · obtain ⟨c, hc⟩ := List.exists_mem_of_ne_nil _ h.nonempty
    exact hnone c hc (hleast c (h.mem c hc)) (h.least a ha hnot c hc)
  · exact (h.enough.trans (total_le_of_subset h.nodup hsmaller)).not_gt hlt

/-- Without a tie there is one way to cover the target. -/
theorem Covers.eq_of_not_tieReached {chosen' : List α} (hnd : items.Nodup)
    (hties : ¬ TieReached weight le items target) (h : Covers weight le items target chosen)
    (h' : Covers weight le items target chosen') : chosen = chosen' := by
  have hsame : ∀ a ∈ items, Reached weight le items target a → ∀ b ∈ items, le a b → le b a →
      b = a := by
    intro a ha hreached b hb hab hba
    by_contra hne
    exact hties ⟨h.le_total, a, ha, hreached, b, hb, hne, hab, hba⟩
  have hsubset : ∀ {cs cs' : List α}, Covers weight le items target cs →
      Covers weight le items target cs' → cs ⊆ cs' := by
    intro cs cs' hcs hcs' a ha
    have hmem := hcs.mem a ha
    have hreached := hcs.reached hnd ha
    obtain ⟨c, hc, hac, hca⟩ := hcs'.exists_tied hmem hreached
    exact hsame a hmem hreached c (hcs'.mem c hc) hac hca ▸ hc
  have hperm : chosen.Perm chosen' :=
    (List.perm_ext_iff_of_nodup h.nodup h'.nodup).mpr fun a => ⟨@hsubset _ _ h h' a,
      @hsubset _ _ h' h a⟩
  refine List.Perm.eq_of_pairwise (fun a b ha hb hab hba => ?_) h.sorted h'.sorted hperm
  exact (hsame a (h.mem a ha) (h.reached hnd ha) b (h'.mem b hb) hab hba).symm

/-! ## The order of the listing -/

variable [IsTrans α le]

theorem take_covers (hnd : items.Nodup)
    (h : take weight target (items.insertionSort le) 0 = some chosen) :
    Covers weight le items target chosen := by
  obtain ⟨hfront, hne, henough, hminimal⟩ := take_eq_some h
  rw [Nat.zero_add] at henough hminimal
  have hperm := List.perm_insertionSort le items
  have hsorted := List.pairwise_insertionSort le items
  obtain ⟨rest, hrest⟩ := hfront
  rw [← hrest] at hperm hsorted
  refine ⟨hne, (hperm.nodup_iff.mpr hnd).sublist (List.sublist_append_left _ _), fun a ha => ?_,
    (List.pairwise_append.mp hsorted).1, henough, hminimal, fun a ha hnot c hc => ?_⟩
  · exact hperm.subset (List.mem_append_left _ ha)
  · have ha' := (List.mem_append.mp (hperm.symm.subset ha)).resolve_left hnot
    exact (List.pairwise_append.mp hsorted).2.2 c hc a ha'

/-- Without a tie the order of the listing makes no difference. -/
theorem take_perm (hnd : items.Nodup) (hperm : items.Perm items')
    (hties : ¬ TieReached weight le items target) :
    take weight target (items.insertionSort le) 0 =
      take weight target (items'.insertionSort le) 0 := by
  have hsorted := (List.perm_insertionSort le items).trans
    (hperm.trans (List.perm_insertionSort le items').symm)
  cases h : take weight target (items.insertionSort le) 0 with
  | none =>
    rw [take_eq_none_iff] at h
    refine (take_eq_none_iff.mpr ?_).symm
    rw [← total_perm hsorted]
    refine h.imp_left fun hnil => ?_
    rw [hnil] at hsorted
    exact List.nil_perm.mp hsorted
  | some chosen =>
    cases h' : take weight target (items'.insertionSort le) 0 with
    | none =>
      have hnone : take weight target (items.insertionSort le) 0 = none := by
        rw [take_eq_none_iff] at h' ⊢
        rw [total_perm hsorted]
        refine h'.imp_left fun hnil => ?_
        rw [hnil] at hsorted
        exact List.perm_nil.mp hsorted
      rw [hnone] at h
      cases h
    | some chosen' =>
      have hcovers' := (take_covers (hperm.nodup_iff.mp hnd) h').perm hperm.symm
      rw [(take_covers hnd h).eq_of_not_tieReached hnd hties hcovers']

omit [Std.Total le] in
/-- Sorting keeps tied items in the order in which they are listed. -/
theorem filter_tied_insertionSort (a : α) (items : List α) :
    (items.insertionSort le).filter (fun c => le a c ∧ le c a) =
      items.filter fun c => le a c ∧ le c a := by
  have hpairwise : (items.filter fun c => le a c ∧ le c a).Pairwise le := by
    refine List.pairwise_of_forall_mem_list fun b hb c hc => ?_
    have hb := of_decide_eq_true (List.mem_filter.mp hb).2
    have hc := of_decide_eq_true (List.mem_filter.mp hc).2
    exact IsTrans.trans _ _ _ hb.2 hc.1
  have hsub := (List.sublist_insertionSort hpairwise List.filter_sublist).filter
    fun c => le a c ∧ le c a
  rw [List.filter_filter] at hsub
  simp only [Bool.and_self] at hsub
  refine (hsub.eq_of_length ?_).symm
  exact ((List.perm_insertionSort le items).symm.filter _).length_eq

/-- Of the items tied with a reached one, the first one listed is taken first. -/
theorem head?_filter_tied (hnd : items.Nodup)
    (h : take weight target (items.insertionSort le) 0 = some chosen) {a : α} (ha : a ∈ items)
    (hreached : Reached weight le items target a) :
    (chosen.filter fun c => le a c ∧ le c a).head? =
      (items.filter fun c => le a c ∧ le c a).head? := by
  obtain ⟨c, hc, htied⟩ := (take_covers hnd h).exists_tied ha hreached
  have hfront := (take_eq_some h).1.filter fun c => le a c ∧ le c a
  rw [filter_tied_insertionSort] at hfront
  have hne : chosen.filter (fun c => le a c ∧ le c a) ≠ [] :=
    List.ne_nil_of_mem (List.mem_filter.mpr ⟨hc, decide_eq_true htied⟩)
  obtain ⟨rest, hrest⟩ := hfront
  rw [← hrest, List.head?_append_of_ne_nil _ hne]

theorem eq_of_head?_eq_getLast? {as : List α} (hnd : as.Nodup) (h : as.head? = as.getLast?)
    {a b : α} (ha : a ∈ as) (hb : b ∈ as) : a = b := by
  cases as with
  | nil => cases ha
  | cons c as =>
    have hnil : as = [] := by
      by_contra hne
      rw [List.head?_cons, List.getLast?_cons_of_ne_nil hne] at h
      exact (List.nodup_cons.mp hnd).1 (List.mem_of_getLast? h.symm)
    rw [hnil] at ha hb
    rw [List.mem_singleton.mp ha, List.mem_singleton.mp hb]

/-- Where a tie is reached, the opposite order of the listing leads to another choice. -/
theorem take_reverse_ne (hnd : items.Nodup) (hties : TieReached weight le items target) :
    take weight target (items.insertionSort le) 0 ≠
      take weight target (items.reverse.insertionSort le) 0 := by
  obtain ⟨htotal, a, ha, hreached, b, hb, hne, htied⟩ := hties
  intro heq
  have hperm := List.perm_insertionSort le items
  cases h : take weight target (items.insertionSort le) 0 with
  | none =>
    rw [take_eq_none_iff, total_perm hperm, Nat.zero_add] at h
    rcases h with hnil | hlt
    · rw [hnil, List.nil_perm] at hperm
      rw [hperm] at ha
      cases ha
    · omega
  | some chosen =>
    rw [heq] at h
    have hreversed : Reached weight le items.reverse target a := by
      refine hreached.imp (fun hleast c hc => hleast c (List.mem_reverse.mp hc)) fun hlt => ?_
      rwa [total_perm ((List.reverse_perm items).filter _)]
    have hlast := head?_filter_tied (List.nodup_reverse.mpr hnd) h (List.mem_reverse.mpr ha)
      hreversed
    rw [← heq] at h
    rw [head?_filter_tied hnd h ha hreached, List.filter_reverse, List.head?_reverse] at hlast
    refine hne (eq_of_head?_eq_getLast? (hnd.filter _) hlast ?_ ?_)
    · exact List.mem_filter.mpr ⟨hb, decide_eq_true htied⟩
    · exact List.mem_filter.mpr ⟨ha, decide_eq_true ⟨le_refl_of_total a, le_refl_of_total a⟩⟩

end Total

end Cover
