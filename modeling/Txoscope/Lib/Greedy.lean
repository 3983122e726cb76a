import Mathlib.Data.List.Sort

/-!
# Greedy passes

A greedy pass takes items from the front of a list, one after the other, until a test of what it
has gathered is met. What it takes is the shortest prefix that meets the test, or the whole list if
none does. The first item of a sorted list that passes a test is a least one that does.
-/

namespace Greedy

variable {α σ : Type} {stop : σ → Bool} {step : σ → α → σ}

/-- Takes items until what is gathered meets `stop`. -/
def fill (stop : σ → Bool) (step : σ → α → σ) : List α → σ → List α
  | [], _ => []
  | a :: as, s => if stop s then [] else a :: fill stop step as (step s a)

theorem fill_of_stop {s : σ} (h : stop s = true) (as : List α) : fill stop step as s = [] := by
  cases as with
  | nil => rfl
  | cons a as => exact if_pos h

theorem fill_cons_of_not_stop {s : σ} (h : stop s = false) (a : α) (as : List α) :
    fill stop step (a :: as) s = a :: fill stop step as (step s a) := by
  unfold fill
  rw [if_neg (by simp [h])]
  cases as <;> rfl

variable (stop step) in
theorem fill_isPrefix (as : List α) (s : σ) : fill stop step as s <+: as := by
  induction as generalizing s with
  | nil => exact List.prefix_refl _
  | cons a as ih =>
    by_cases h : stop s = true
    · rw [fill_of_stop h]
      exact List.nil_prefix
    · rw [Bool.not_eq_true] at h
      rw [fill_cons_of_not_stop h, List.prefix_cons_inj]
      exact ih _

variable (stop step) in
/-- The test is met in the end, or everything was taken. -/
theorem stop_or_fill_eq (as : List α) (s : σ) :
    stop ((fill stop step as s).foldl step s) = true ∨ fill stop step as s = as := by
  induction as generalizing s with
  | nil => exact .inr rfl
  | cons a as ih =>
    by_cases h : stop s = true
    · rw [fill_of_stop h]
      exact .inl h
    · rw [Bool.not_eq_true] at h
      rw [fill_cons_of_not_stop h]
      exact (ih (step s a)).imp_right (congrArg (a :: ·))

/-- The test was not met any earlier. -/
theorem not_stop_of_prefix {as taken : List α} {s : σ} (h : taken <+: fill stop step as s)
    (hne : taken ≠ fill stop step as s) : stop (taken.foldl step s) = false := by
  induction as generalizing s taken with
  | nil => exact (hne (List.prefix_nil.mp h)).elim
  | cons a as ih =>
    by_cases hs : stop s = true
    · rw [fill_of_stop hs] at h hne
      exact (hne (List.prefix_nil.mp h)).elim
    · rw [Bool.not_eq_true] at hs
      rw [fill_cons_of_not_stop hs] at h hne
      cases taken with
      | nil => exact hs
      | cons b taken =>
        obtain ⟨rfl, htaken⟩ := List.cons_prefix_cons.mp h
        show stop (taken.foldl step (step s b)) = false
        exact ih htaken fun heq => hne (congrArg (b :: ·) heq)

/-- `taken` is the shortest prefix that meets the test, or the whole list if none does. -/
structure Fills (stop : σ → Bool) (step : σ → α → σ) (s : σ) (as taken : List α) : Prop where
  leading : taken <+: as
  earlier : ∀ t, t <+: taken → t ≠ taken → stop (t.foldl step s) = false
  complete : stop (taken.foldl step s) = true ∨ taken = as

theorem fills_iff {as taken : List α} {s : σ} :
    Fills stop step s as taken ↔ taken = fill stop step as s := by
  constructor
  · intro h
    have hleading := fill_isPrefix stop step as s
    by_contra hne
    rcases List.prefix_or_prefix_of_prefix h.leading hleading with hle | hle
    · have hstop := not_stop_of_prefix hle hne
      rcases h.complete with hdone | rfl
      · rw [hdone] at hstop
        cases hstop
      · exact hne (hle.eq_of_length_le hleading.length_le)
    · have hstop := h.earlier _ hle (Ne.symm hne)
      rcases stop_or_fill_eq stop step as s with hdone | hall
      · rw [hdone] at hstop
        cases hstop
      · rw [hall] at hle hne
        exact hne (h.leading.eq_of_length_le hle.length_le)
  · rintro rfl
    exact ⟨fill_isPrefix stop step as s, fun _ ht hne => not_stop_of_prefix ht hne,
      stop_or_fill_eq stop step as s⟩

/-! ## The first item of a sorted list -/

section First

variable {le : α → α → Prop} [DecidableRel le] {test : α → Bool} {as : List α}

theorem find?_insertionSort_eq_none_iff :
    (as.insertionSort le).find? test = none ↔ ∀ a ∈ as, test a = false := by
  rw [List.find?_eq_none]
  simp only [List.mem_insertionSort, Bool.not_eq_true]

theorem find?_insertionSort_least [Std.Total le] [IsTrans α le] {a : α}
    (h : (as.insertionSort le).find? test = some a) :
    a ∈ as ∧ test a = true ∧ ∀ b ∈ as, test b = true → le a b := by
  have hsorted := List.pairwise_insertionSort le as
  refine ⟨(List.mem_insertionSort le).mp (List.mem_of_find?_eq_some h), List.find?_some h,
    fun b hb hpasses => ?_⟩
  obtain ⟨-, before, after, heq, hbefore⟩ := List.find?_eq_some_iff_append.mp h
  rw [← List.mem_insertionSort le, heq] at hb
  rw [heq, List.pairwise_append, List.pairwise_cons] at hsorted
  rcases List.mem_append.mp hb with hb | hb
  · have hfails := hbefore b hb
    rw [hpasses] at hfails
    cases hfails
  · rcases List.mem_cons.mp hb with rfl | hb
    · exact (Std.Total.total b b).elim id id
    · exact hsorted.2.1.1 b hb

end First

end Greedy
