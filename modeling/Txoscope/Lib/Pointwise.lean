import Mathlib.Data.List.Basic
import Mathlib.Logic.Function.Basic

/-!
# Updating a family of values key by key

A list of items, each with a key, updates the value under its key. The value under one key in the
end depends on the items with that key only. When the keys are distinct and each update is checked
before it is made, checking first and updating afterwards comes to the same.
-/

namespace Pointwise

variable {κ ν α ε : Type} [DecidableEq κ] (key : α → κ)

/-- Updates in turn. -/
def updateAll (f : ν → α → ν) (as : List α) (g : κ → ν) : κ → ν :=
  as.foldl (fun g a => Function.update g (key a) (f (g (key a)) a)) g

theorem updateAll_apply (f : ν → α → ν) (as : List α) (g : κ → ν) (k : κ) :
    updateAll key f as g k = (as.filter fun a => key a = k).foldl f (g k) := by
  unfold updateAll
  induction as generalizing g with
  | nil => rfl
  | cons a as ih =>
    rw [List.foldl_cons, ih, List.filter_cons]
    by_cases h : key a = k
    · subst h
      simp only [decide_true, if_true, List.foldl_cons, Function.update_self]
    · rw [Function.update_of_ne (Ne.symm h)]
      simp only [h, decide_false, Bool.false_eq_true, if_false]

/-- Updates in turn, each after its check; the first failed check ends it. -/
def checkedUpdates (check : α → ν → Except ε Unit) (f : α → ν → ν) :
    List α → (κ → ν) → Except ε (κ → ν)
  | [], g => .ok g
  | a :: as, g => do
    check a (g (key a))
    checkedUpdates check f as (Function.update g (key a) (f a (g (key a))))

/-- Every value updated by the item with its key, if there is one. -/
def updateEach (f : α → ν → ν) (as : List α) (g : κ → ν) (k : κ) : ν :=
  match as.find? fun a => key a = k with
  | some a => f a (g k)
  | none => g k

/-- A value is updated by an item with its key, or there is none and it stays. -/
theorem updateEach_cases (f : α → ν → ν) (as : List α) (g : κ → ν) (k : κ) :
    (∃ a ∈ as, key a = k ∧ updateEach key f as g k = f a (g k)) ∨
      ((∀ a ∈ as, key a ≠ k) ∧ updateEach key f as g k = g k) := by
  unfold updateEach
  cases h : as.find? fun a => decide (key a = k) with
  | none =>
    refine .inr ⟨fun a ha => ?_, rfl⟩
    simpa using List.find?_eq_none.mp h a ha
  | some a =>
    exact .inl ⟨a, List.mem_of_find?_eq_some h, by simpa using List.find?_some h, rfl⟩

theorem updateEach_cons_of_notMem {f : α → ν → ν} {a : α} {as : List α} {g : κ → ν}
    (h : key a ∉ as.map key) :
    updateEach key f as (Function.update g (key a) (f a (g (key a)))) =
      updateEach key f (a :: as) g := by
  funext k
  unfold updateEach
  by_cases hk : key a = k
  · subst hk
    have hnone : (as.find? fun b => decide (key b = key a)) = none := by
      rw [List.find?_eq_none]
      intro b hb
      simp only [decide_eq_true_eq]
      exact fun heq => h (List.mem_map.mpr ⟨b, hb, heq⟩)
    simp only [hnone, List.find?_cons, decide_true, Function.update_self]
  · rw [Function.update_of_ne (Ne.symm hk)]
    simp only [List.find?_cons, hk, decide_false]

/-- Under distinct keys every value is updated once. -/
theorem updateAll_of_nodup {f : ν → α → ν} {as : List α} {g : κ → ν} (h : (as.map key).Nodup) :
    updateAll key f as g = updateEach key (fun a v => f v a) as g := by
  induction as generalizing g with
  | nil => rfl
  | cons a as ih =>
    rw [List.map_cons, List.nodup_cons] at h
    rw [← updateEach_cons_of_notMem key h.1, ← ih h.2]
    rfl

/-- Under distinct keys an update does not disturb a later check. -/
theorem forM_check_update {check : α → ν → Except ε Unit} {v : ν} {a : α} {as : List α}
    {g : κ → ν} (h : key a ∉ as.map key) :
    (forM as fun b => check b (Function.update g (key a) v (key b))) =
      forM as fun b => check b (g (key b)) := by
  induction as with
  | nil => rfl
  | cons b as ih =>
    rw [List.map_cons, List.mem_cons, not_or] at h
    rw [List.forM_cons, List.forM_cons, Function.update_of_ne (Ne.symm h.1), ih h.2]

theorem checkedUpdates_of_nodup {check : α → ν → Except ε Unit} {f : α → ν → ν} {as : List α}
    {g : κ → ν} (h : (as.map key).Nodup) :
    checkedUpdates key check f as g =
      (forM as fun a => check a (g (key a))).map fun _ => updateEach key f as g := by
  induction as generalizing g with
  | nil => rfl
  | cons a as ih =>
    rw [List.map_cons, List.nodup_cons] at h
    unfold checkedUpdates
    rw [ih h.2, List.forM_cons, forM_check_update key h.1, updateEach_cons_of_notMem key h.1]
    cases check a (g (key a)) with
    | error e => rfl
    | ok u => rfl

/-- Every check of a list passes exactly when each of them does. -/
theorem forM_eq_ok_iff {f : α → Except ε Unit} {as : List α} :
    forM as f = .ok () ↔ ∀ a ∈ as, f a = .ok () := by
  induction as with
  | nil => simp [pure, Except.pure]
  | cons a as ih =>
    rw [List.forM_cons, List.forall_mem_cons]
    cases h : f a with
    | error e => simp [bind, Except.bind]
    | ok u => simp [bind, Except.bind, ih]

end Pointwise
