import Mathlib.Data.List.AList
import Mathlib.Data.List.Sort

/-!
# Dictionaries with an iteration order

A `Dict` is a finite map whose entries have distinct keys. The order of its entries is the order
in which it is iterated over; `SameContents` relates two dictionaries that differ in that order
only.
-/

/-- A finite map from keys to values. -/
abbrev Dict (κ ν : Type) := AList (fun _ : κ => ν)

namespace Dict

variable {κ ν : Type}

section Values

/-- The values, in iteration order. -/
def values (d : Dict κ ν) : List ν := d.entries.map (·.2)

/-- Rewrites every value in place. -/
def mapValues (f : ν → ν) (d : Dict κ ν) : Dict κ ν where
  entries := d.entries.map fun e => ⟨e.1, f e.2⟩
  nodupKeys := by
    have h := d.nodupKeys
    unfold List.NodupKeys List.keys at *
    rwa [List.map_map]

/-- Keeps the entries whose value satisfies `p`. -/
def retain (p : ν → Bool) (d : Dict κ ν) : Dict κ ν where
  entries := d.entries.filter fun e => p e.2
  nodupKeys := List.NodupKeys.sublist List.filter_sublist d.nodupKeys

end Values

variable [DecidableEq κ]

/-- The value stored under `k`. -/
def get (d : Dict κ ν) (k : κ) : Option ν := d.lookup k

/-- Stores `v` under `k`, replacing what was there. -/
def set (d : Dict κ ν) (k : κ) (v : ν) : Dict κ ν := d.insert k v

/-- Removes the entry under `k`. -/
def remove (d : Dict κ ν) (k : κ) : Dict κ ν := d.erase k

/-- Rewrites the value under `k`, if there is one. -/
def modify (d : Dict κ ν) (k : κ) (f : ν → ν) : Dict κ ν :=
  match d.get k with
  | some v => d.set k (f v)
  | none => d

/-- The same entries, in any order. -/
def SameContents (d d' : Dict κ ν) : Prop := ∀ k, d.get k = d'.get k

/-! ## Lookups -/

theorem get_eq_some_iff {d : Dict κ ν} {k : κ} {v : ν} :
    d.get k = some v ↔ (⟨k, v⟩ : Sigma fun _ : κ => ν) ∈ d.entries :=
  AList.mem_lookup_iff

@[simp] theorem get_empty (k : κ) : get (∅ : Dict κ ν) k = none := rfl

theorem get_set (d : Dict κ ν) (k k' : κ) (v : ν) :
    (d.set k v).get k' = if k' = k then some v else d.get k' := by
  unfold get set
  split_ifs with h
  · rw [h, AList.lookup_insert]
  · exact AList.lookup_insert_ne h

@[simp] theorem get_set_self (d : Dict κ ν) (k : κ) (v : ν) : (d.set k v).get k = some v := by
  rw [get_set, if_pos rfl]

theorem get_set_ne (d : Dict κ ν) {k k' : κ} (v : ν) (h : k' ≠ k) :
    (d.set k v).get k' = d.get k' := by
  rw [get_set, if_neg h]

theorem get_remove (d : Dict κ ν) (k k' : κ) :
    (d.remove k).get k' = if k' = k then none else d.get k' := by
  unfold get remove
  split_ifs with h
  · rw [h, AList.lookup_erase]
  · exact AList.lookup_erase_ne h

theorem get_modify (d : Dict κ ν) (k k' : κ) (f : ν → ν) :
    (d.modify k f).get k' = if k' = k then (d.get k).map f else d.get k' := by
  unfold modify
  cases h : d.get k with
  | none =>
    split_ifs with hk
    · rw [hk, h, Option.map_none]
    · rfl
  | some v => rw [get_set, Option.map_some]

@[simp] theorem get_mapValues (f : ν → ν) (d : Dict κ ν) (k : κ) :
    (d.mapValues f).get k = (d.get k).map f := by
  cases h : d.get k with
  | none =>
    rw [Option.map_none]
    by_contra hne
    obtain ⟨v, hv⟩ := Option.ne_none_iff_exists'.mp hne
    obtain ⟨e, he, heq⟩ := List.mem_map.mp (get_eq_some_iff.mp hv)
    obtain ⟨rfl, -⟩ := Sigma.mk.inj heq
    rw [get_eq_some_iff.mpr he] at h
    cases h
  | some v =>
    rw [Option.map_some]
    exact get_eq_some_iff.mpr (List.mem_map.mpr ⟨_, get_eq_some_iff.mp h, rfl⟩)

@[simp] theorem get_retain (p : ν → Bool) (d : Dict κ ν) (k : κ) :
    (d.retain p).get k = (d.get k).filter p := by
  cases h : d.get k with
  | none =>
    rw [Option.filter_none]
    by_contra hne
    obtain ⟨v, hv⟩ := Option.ne_none_iff_exists'.mp hne
    have hmem := (List.mem_filter.mp (get_eq_some_iff.mp hv)).1
    rw [get_eq_some_iff.mpr hmem] at h
    cases h
  | some v =>
    rw [Option.filter_some]
    split_ifs with hp
    · exact get_eq_some_iff.mpr (List.mem_filter.mpr ⟨get_eq_some_iff.mp h, hp⟩)
    · by_contra hne
      obtain ⟨w, hw⟩ := Option.ne_none_iff_exists'.mp hne
      obtain ⟨hmem, hpw⟩ := List.mem_filter.mp (get_eq_some_iff.mp hw)
      rw [get_eq_some_iff.mpr hmem] at h
      cases h
      exact hp hpw

/-! ## Iteration -/

theorem mem_values {d : Dict κ ν} {v : ν} : v ∈ d.values ↔ ∃ k, d.get k = some v := by
  unfold values
  rw [List.mem_map]
  constructor
  · rintro ⟨⟨k, w⟩, hmem, rfl⟩
    exact ⟨k, get_eq_some_iff.mpr hmem⟩
  · rintro ⟨k, hk⟩
    exact ⟨⟨k, v⟩, get_eq_some_iff.mp hk, rfl⟩

/-- Values under distinct keys are iterated over once each. -/
theorem nodup_map_values {β : Type} {d : Dict κ ν} (g : ν → β)
    (hg : ∀ k k' v v', d.get k = some v → d.get k' = some v' → g v = g v' → k = k') :
    (d.values.map g).Nodup := by
  unfold values
  rw [List.map_map]
  have hnd : d.entries.Nodup := d.nodupKeys.nodup
  refine (List.nodup_map_iff_inj_on hnd).mpr ?_
  rintro ⟨k, v⟩ hv ⟨k', v'⟩ hv' heq
  have h := get_eq_some_iff.mpr hv
  have h' := get_eq_some_iff.mpr hv'
  obtain rfl := hg k k' v v' h h' heq
  rw [h] at h'
  cases h'
  rfl

/-- Where no value is iterated over twice, no value is under two keys. -/
theorem key_eq_of_nodup_values {d : Dict κ ν} (h : d.values.Nodup) {k k' : κ} {v : ν}
    (hk : d.get k = some v) (hk' : d.get k' = some v) : k = k' := by
  have heq := List.inj_on_of_nodup_map h (get_eq_some_iff.mp hk) (get_eq_some_iff.mp hk') rfl
  exact congrArg Sigma.fst heq

namespace SameContents

variable {d d' d'' : Dict κ ν}

@[refl] theorem refl (d : Dict κ ν) : SameContents d d := fun _ => rfl

theorem symm (h : SameContents d d') : SameContents d' d := fun k => (h k).symm

theorem trans (h : SameContents d d') (h' : SameContents d' d'') : SameContents d d'' :=
  fun k => (h k).trans (h' k)

theorem perm_entries (h : SameContents d d') : d.entries.Perm d'.entries := by
  refine (List.perm_ext_iff_of_nodup d.nodupKeys.nodup d'.nodupKeys.nodup).mpr ?_
  rintro ⟨k, v⟩
  rw [← get_eq_some_iff, ← get_eq_some_iff, h k]

/-- The same values are iterated over, in some order. -/
theorem perm_values (h : SameContents d d') : d.values.Perm d'.values :=
  h.perm_entries.map _

theorem of_perm (h : d.entries.Perm d'.entries) : SameContents d d' := fun k =>
  Option.ext fun v => by rw [get_eq_some_iff, get_eq_some_iff, h.mem_iff]

end SameContents

/-! ## Other orders of iteration -/

section Orders

variable {κ ν : Type}

/-- Iterated over in the order of the keys. -/
def sortKeys (le : κ → κ → Prop) [DecidableRel le] (d : Dict κ ν) : Dict κ ν where
  entries := d.entries.insertionSort fun a b => le a.1 b.1
  nodupKeys := (List.perm_nodupKeys (List.perm_insertionSort _ _)).mpr d.nodupKeys

/-- Iterated over from the end. -/
def reversed (d : Dict κ ν) : Dict κ ν where
  entries := d.entries.reverse
  nodupKeys := (List.perm_nodupKeys (List.reverse_perm _)).mpr d.nodupKeys

theorem values_reversed (d : Dict κ ν) : d.reversed.values = d.values.reverse := List.map_reverse

theorem sameContents_sortKeys [DecidableEq κ] (le : κ → κ → Prop) [DecidableRel le]
    (d : Dict κ ν) : d.SameContents (d.sortKeys le) :=
  .of_perm (List.perm_insertionSort _ _).symm

/-- Sorted by the names of its keys, a dictionary lists its values in the order of those names; the
key of a value is what `f` says. -/
theorem pairwise_sortKeys [DecidableEq κ] {τ : Type} [LinearOrder τ] {name : κ → τ}
    (hname : Function.Injective name) {le : κ → κ → Prop} [DecidableRel le]
    (hle : ∀ a b, le a b ↔ name a ≤ name b) {d : Dict κ ν} {f : ν → κ}
    (hlabel : ∀ k v, d.get k = some v → f v = k) :
    (d.sortKeys le).values.Pairwise fun a b => name (f a) < name (f b) := by
  have htotal : Std.Total le := ⟨fun a b => by simp only [hle]; exact le_total _ _⟩
  have htrans : IsTrans κ le := ⟨fun a b c => by simp only [hle]; exact le_trans⟩
  have hsorted : (d.sortKeys le).entries.Pairwise fun a b => le a.1 b.1 :=
    List.pairwise_insertionSort _ _
  have hdistinct : (d.sortKeys le).entries.Pairwise fun a b => a.1 ≠ b.1 :=
    List.pairwise_map.mp (d.sortKeys le).nodupKeys
  have hkey : ∀ e ∈ (d.sortKeys le).entries, f e.2 = e.1 := fun e he =>
    hlabel _ _ ((sameContents_sortKeys le d e.1).trans (get_eq_some_iff.mpr he))
  refine List.pairwise_map.mpr ((hsorted.and hdistinct).imp_of_mem fun ha hb hab => ?_)
  rw [hkey _ ha, hkey _ hb]
  exact lt_of_le_of_ne ((hle _ _).mp hab.1) fun heq => hab.2 (hname heq)

end Orders

end Dict
