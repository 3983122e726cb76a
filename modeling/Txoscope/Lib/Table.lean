import Mathlib.Data.List.Sort
import Mathlib.Data.List.TakeWhile
import Mathlib.Logic.Function.Basic

/-!
# Tables with a primary key

A `Table` is a list of rows with distinct keys, under the statements a relational store executes:
lookup by key, insert-or-replace, conditional deletion, update and ordered selection.

`Table.Stores dec name t f` says that the table `t`, read through the decoder `dec`, holds exactly
the family `f`: the row under `name i` decodes to `f i`, and every row stands under some name. Each
statement is the corresponding update of the family.
-/

/-- Rows with distinct primary keys. -/
structure Table (ρ κ : Type) (key : ρ → κ) where
  rows : List ρ
  unique : (rows.map key).Nodup

namespace Table

variable {ρ κ ι ν ε : Type} {key : ρ → κ}

/-! ## Statements -/

def empty : Table ρ κ key := ⟨[], List.nodup_nil⟩

/-- `DELETE FROM t WHERE p`. -/
def deleteWhere (p : ρ → Bool) (t : Table ρ κ key) : Table ρ κ key where
  rows := t.rows.filter fun row => !p row
  unique := t.unique.sublist (List.filter_sublist.map key)

/-- `UPDATE t SET ...` that leaves the primary key alone. -/
def update (set : ρ → ρ) (hset : ∀ row, key (set row) = key row) (t : Table ρ κ key) :
    Table ρ κ key where
  rows := t.rows.map set
  unique := by
    have hkeys : key ∘ set = key := funext hset
    rw [List.map_map, hkeys]
    exact t.unique

/-- `SELECT ... FROM t WHERE p ORDER BY le`. -/
def select (p : ρ → Bool) (le : ρ → ρ → Bool) (t : Table ρ κ key) : List ρ :=
  (t.rows.filter p).insertionSort fun a b => le a b = true

@[simp] theorem mem_select {p : ρ → Bool} {le : ρ → ρ → Bool} {t : Table ρ κ key} {row : ρ} :
    row ∈ t.select p le ↔ row ∈ t.rows ∧ p row = true := by
  unfold select
  rw [List.mem_insertionSort, List.mem_filter]

theorem nodup_select_keys (p : ρ → Bool) (le : ρ → ρ → Bool) (t : Table ρ κ key) :
    ((t.select p le).map key).Nodup := by
  have hperm := (List.perm_insertionSort (fun a b => le a b = true) (t.rows.filter p)).map key
  exact hperm.nodup_iff.mpr (t.unique.sublist (List.filter_sublist.map key))

/-- Rows selected in the order of their keys. -/
theorem pairwise_select [LinearOrder κ] {p : ρ → Bool} {le : ρ → ρ → Bool} {t : Table ρ κ key}
    (hle : ∀ a b, le a b = true ↔ key a ≤ key b) :
    (t.select p le).Pairwise fun a b => key a < key b := by
  have htotal : Std.Total fun a b => le a b = true :=
    ⟨fun a b => by simp only [hle]; exact le_total _ _⟩
  have htrans : IsTrans ρ fun a b => le a b = true :=
    ⟨fun a b c => by simp only [hle]; exact le_trans⟩
  have hsorted : (t.select p le).Pairwise fun a b => le a b = true :=
    List.pairwise_insertionSort _ _
  have hdistinct := List.pairwise_map.mp (nodup_select_keys p le t)
  exact (hsorted.and hdistinct).imp fun h => lt_of_le_of_ne ((hle _ _).mp h.1) h.2

/-! ### Stamps -/

section Stamped

variable {stamp : ρ → ν} {p : ν → Prop}

/-- Every row of `t'` has the stamp its key had in `t`, or a new one that satisfies `p`. -/
def Stamped (stamp : ρ → ν) (p : ν → Prop) (t t' : Table ρ κ key) : Prop :=
  ∀ row' ∈ t'.rows,
    (∃ row ∈ t.rows, key row = key row' ∧ stamp row = stamp row') ∨ p (stamp row')

theorem Stamped.refl (t : Table ρ κ key) : Stamped stamp p t t :=
  fun row hrow => .inl ⟨row, hrow, rfl, rfl⟩

theorem Stamped.trans {t t' t'' : Table ρ κ key} (h : Stamped stamp p t t')
    (h' : Stamped stamp p t' t'') : Stamped stamp p t t'' := by
  intro row'' hrow''
  rcases h' row'' hrow'' with ⟨row', hrow', hkey', hstamp'⟩ | hnew
  · rcases h row' hrow' with ⟨row, hrow, hkey, hstamp⟩ | hnew
    · exact .inl ⟨row, hrow, hkey.trans hkey', hstamp.trans hstamp'⟩
    · exact .inr (hstamp' ▸ hnew)
  · exact .inr hnew

theorem stamped_deleteWhere (q : ρ → Bool) (t : Table ρ κ key) :
    Stamped stamp p t (t.deleteWhere q) := by
  intro row hrow
  exact .inl ⟨row, (List.mem_filter.mp hrow).1, rfl, rfl⟩

theorem stamped_update {set : ρ → ρ} (hset : ∀ row, key (set row) = key row)
    (hstamp : ∀ row, stamp (set row) = stamp row) (t : Table ρ κ key) :
    Stamped stamp p t (t.update set hset) := by
  intro row' hrow'
  obtain ⟨row, hrow, rfl⟩ := List.mem_map.mp hrow'
  exact .inl ⟨row, hrow, (hset row).symm, (hstamp row).symm⟩

end Stamped

/-! ### Keys -/

variable [DecidableEq κ]

/-- The row under a primary key. -/
def find (t : Table ρ κ key) (k : κ) : Option ρ := t.rows.find? fun row => key row = k

/-- `INSERT OR REPLACE INTO t`. -/
def replace (row : ρ) (t : Table ρ κ key) : Table ρ κ key where
  rows := row :: t.rows.filter fun other => key other ≠ key row
  unique := by
    refine List.nodup_cons.mpr ⟨?_, t.unique.sublist (List.filter_sublist.map key)⟩
    rw [List.mem_map]
    rintro ⟨other, hmem, hkey⟩
    exact of_decide_eq_true (List.mem_filter.mp hmem).2 hkey

theorem stamped_replace {stamp : ρ → ν} {p : ν → Prop} {row : ρ} (hrow : p (stamp row))
    (t : Table ρ κ key) : Stamped stamp p t (t.replace row) := by
  intro row' hrow'
  rcases List.mem_cons.mp hrow' with rfl | hold
  · exact .inr hrow
  · exact .inl ⟨row', (List.mem_filter.mp hold).1, rfl, rfl⟩

/-- `INSERT INTO t`, which fails on a key that is there. -/
def insert (row : ρ) (t : Table ρ κ key) : Option (Table ρ κ key) :=
  if (t.find (key row)).isSome then none else some (t.replace row)

/-- One `INSERT INTO t` after the other. -/
def insertAll : List ρ → Table ρ κ key → Option (Table ρ κ key)
  | [], t => some t
  | row :: rows, t => (t.insert row).bind (insertAll rows)

/-- Reads the row under a primary key through a decoder. -/
def read (dec : ρ → Except ε ν) (t : Table ρ κ key) (k : κ) : Except ε (Option ν) :=
  match t.find k with
  | none => .ok none
  | some row => (dec row).map some

/-! ## Rows and keys -/

theorem find_eq_some_iff {t : Table ρ κ key} {k : κ} {row : ρ} :
    t.find k = some row ↔ row ∈ t.rows ∧ key row = k := by
  unfold find
  constructor
  · intro h
    exact ⟨List.mem_of_find?_eq_some h, by simpa using List.find?_some h⟩
  · rintro ⟨hmem, rfl⟩
    have hsome : (t.rows.find? fun other => key other = key row).isSome :=
      List.find?_isSome.mpr ⟨row, hmem, by simp⟩
    obtain ⟨other, hother⟩ := Option.isSome_iff_exists.mp hsome
    have hkey : key other = key row := by simpa using List.find?_some hother
    -- two rows with one key are one row
    have hsame := List.inj_on_of_nodup_map t.unique (List.mem_of_find?_eq_some hother) hmem hkey
    rw [hother, hsame]

theorem find_eq_none_iff {t : Table ρ κ key} {k : κ} :
    t.find k = none ↔ ∀ row ∈ t.rows, key row ≠ k := by
  unfold find
  simp

@[simp] theorem find_empty (k : κ) : (empty : Table ρ κ key).find k = none := rfl

theorem find_replace (row : ρ) (t : Table ρ κ key) (k : κ) :
    (t.replace row).find k = if k = key row then some row else t.find k := by
  split_ifs with h
  · rw [find_eq_some_iff]
    exact ⟨List.mem_cons_self, h.symm⟩
  · refine Option.ext fun other => ?_
    rw [find_eq_some_iff, find_eq_some_iff]
    refine and_congr_left fun hkey => ?_
    have hne : key other ≠ key row := fun heq => h (hkey.symm.trans heq)
    have hrow : other ≠ row := fun heq => hne (congrArg key heq)
    change other ∈ row :: _ ↔ _
    rw [List.mem_cons, List.mem_filter]
    simp [hrow, hne]

theorem find_deleteWhere (p : ρ → Bool) (t : Table ρ κ key) (k : κ) :
    (t.deleteWhere p).find k = (t.find k).filter fun row => !p row := by
  refine Option.ext fun row => ?_
  rw [Option.filter_eq_some_iff, find_eq_some_iff, find_eq_some_iff]
  change row ∈ t.rows.filter _ ∧ _ ↔ _
  rw [List.mem_filter]
  tauto

theorem find_update {set : ρ → ρ} (hset : ∀ row, key (set row) = key row) (t : Table ρ κ key)
    (k : κ) : (t.update set hset).find k = (t.find k).map set := by
  refine Option.ext fun row => ?_
  rw [Option.map_eq_some_iff, find_eq_some_iff]
  change row ∈ t.rows.map set ∧ _ ↔ _
  rw [List.mem_map]
  constructor
  · rintro ⟨⟨old, hmem, rfl⟩, hkey⟩
    exact ⟨old, find_eq_some_iff.mpr ⟨hmem, (hset old).symm.trans hkey⟩, rfl⟩
  · rintro ⟨old, hold, rfl⟩
    obtain ⟨hmem, hkey⟩ := find_eq_some_iff.mp hold
    exact ⟨⟨old, hmem, rfl⟩, (hset old).trans hkey⟩

/-! ## Insertions -/

theorem rows_replace_of_fresh {t : Table ρ κ key} {row : ρ} (h : t.find (key row) = none) :
    (t.replace row).rows = row :: t.rows := by
  refine congrArg (List.cons row) (List.filter_eq_self.mpr fun other hother => ?_)
  exact decide_eq_true (find_eq_none_iff.mp h other hother)

/-- A new row that is not selected. -/
theorem select_replace_of_not {p : ρ → Bool} {le : ρ → ρ → Bool} {t : Table ρ κ key} {row : ρ}
    (hfresh : t.find (key row) = none) (hp : ¬ p row = true) :
    (t.replace row).select p le = t.select p le := by
  unfold select
  rw [rows_replace_of_fresh hfresh, List.filter_cons_of_neg hp]

/-- A new row that comes after all that are selected. -/
theorem select_replace_of_last {p : ρ → Bool} {le : ρ → ρ → Bool} {t : Table ρ κ key} {row : ρ}
    (hfresh : t.find (key row) = none) (hp : p row = true)
    (hlast : ∀ other ∈ t.rows, p other = true → le row other = false) :
    (t.replace row).select p le = t.select p le ++ [row] := by
  have hafter : ∀ other ∈ t.select p le, decide (¬ le row other = true) = true := by
    intro other hother
    obtain ⟨hmem, hselected⟩ := mem_select.mp hother
    simp [hlast other hmem hselected]
  unfold select at hafter ⊢
  rw [rows_replace_of_fresh hfresh, List.filter_cons_of_pos hp, List.insertionSort_cons,
    List.orderedInsert_eq_take_drop, List.takeWhile_eq_self_iff.mpr hafter,
    List.dropWhile_eq_nil_iff.mpr hafter]

theorem rows_insertAll {rows : List ρ} {t t' : Table ρ κ key} (h : t.insertAll rows = some t') :
    t'.rows = rows.reverse ++ t.rows := by
  induction rows generalizing t with
  | nil =>
    cases h
    rfl
  | cons row rows ih =>
    obtain ⟨u, hu, hrest⟩ := Option.bind_eq_some_iff.mp h
    unfold insert at hu
    split_ifs at hu with hfind
    cases hu
    have hfresh : t.find (key row) = none := by simpa using hfind
    rw [ih hrest, rows_replace_of_fresh hfresh, List.reverse_cons, List.append_assoc]
    rfl

/-- Rows with distinct keys that are not in the table can be inserted. -/
theorem insertAll_of_fresh {rows : List ρ} {t : Table ρ κ key} (hnodup : (rows.map key).Nodup)
    (hfresh : ∀ row ∈ rows, t.find (key row) = none) : ∃ t', t.insertAll rows = some t' := by
  induction rows generalizing t with
  | nil => exact ⟨t, rfl⟩
  | cons row rows ih =>
    rw [List.map_cons, List.nodup_cons] at hnodup
    have hrow := hfresh row List.mem_cons_self
    obtain ⟨t', ht'⟩ := ih (t := t.replace row) hnodup.2 fun other hother => by
      have hne : key other ≠ key row := fun heq =>
        hnodup.1 (heq ▸ List.mem_map.mpr ⟨other, hother, rfl⟩)
      rw [find_replace, if_neg hne]
      exact hfresh other (List.mem_cons_of_mem _ hother)
    refine ⟨t', ?_⟩
    unfold insertAll insert
    rw [hrow]
    exact ht'

/-! ## Selections -/

omit [DecidableEq κ] in
/-- A selection depends on the rows that satisfy its condition only. -/
theorem select_congr {p : ρ → Bool} {t t' : Table ρ κ key}
    (h : t.rows.filter p = t'.rows.filter p) (le : ρ → ρ → Bool) : t.select p le = t'.select p le := by
  unfold select
  rw [h]

omit [DecidableEq κ] in
/-- Rows selected in the order of a number that tells them apart. -/
theorem select_eq_of_perm {p : ρ → Bool} {t : Table ρ κ key} {rows : List ρ} {rank : ρ → ℕ}
    (hperm : (t.rows.filter p).Perm rows) (hsorted : rows.Pairwise fun a b => rank a < rank b) :
    t.select p (fun a b => rank a ≤ rank b) = rows := by
  unfold select
  simp only [decide_eq_true_eq]
  have htrans : IsTrans ρ fun a b => rank a ≤ rank b := ⟨fun _ _ _ => le_trans⟩
  have htotal : Std.Total fun a b : ρ => rank a ≤ rank b := ⟨fun a b => le_total (rank a) (rank b)⟩
  have hsame : ∀ a ∈ rows, ∀ b ∈ rows, rank a = rank b → a = b := by
    have hnodup : (rows.map rank).Nodup := (List.pairwise_map.mpr hsorted).imp Nat.ne_of_lt
    exact fun a ha b hb => List.inj_on_of_nodup_map hnodup ha hb
  have hsort := List.perm_insertionSort (fun a b => rank a ≤ rank b) (t.rows.filter p)
  refine List.Perm.eq_of_pairwise (fun a b ha hb hab hba => ?_) (List.pairwise_insertionSort _ _)
    (hsorted.imp Nat.le_of_lt) (hsort.trans hperm)
  exact hsame a (hperm.mem_iff.mp (hsort.mem_iff.mp ha)) b hb (le_antisymm hab hba)

/-! ## Numbered rows -/

section Numbered

variable {α : Type} {mk : ℕ → α → ρ}

omit [DecidableEq κ]

/-- One row for each item, numbered from a position on. -/
def numbered (mk : ℕ → α → ρ) : ℕ → List α → List ρ
  | _, [] => []
  | n, a :: as => mk n a :: numbered mk (n + 1) as

theorem mem_numbered {n : ℕ} {as : List α} {row : ρ} (h : row ∈ numbered mk n as) :
    ∃ m a, n ≤ m ∧ row = mk m a := by
  induction as generalizing n with
  | nil => cases h
  | cons a as ih =>
    rcases List.mem_cons.mp h with rfl | hmem
    · exact ⟨n, a, le_rfl, rfl⟩
    · obtain ⟨m, b, hle, hrow⟩ := ih hmem
      exact ⟨m, b, (Nat.le_succ n).trans hle, hrow⟩

theorem numbered_sorted {rank : ρ → ℕ} (hrank : ∀ n a, rank (mk n a) = n) (n : ℕ) (as : List α) :
    (numbered mk n as).Pairwise fun a b => rank a < rank b := by
  induction as generalizing n with
  | nil => exact .nil
  | cons a as ih =>
    refine .cons (fun row hrow => ?_) (ih (n + 1))
    obtain ⟨m, b, hle, rfl⟩ := mem_numbered hrow
    rw [hrank, hrank]
    exact hle

/-- The items are read back from their rows. -/
theorem mapM_numbered (mk : ℕ → α → ρ) (dec : ρ → Except ε α)
    (hdec : ∀ n a, dec (mk n a) = .ok a) (n : ℕ) (as : List α) : (numbered mk n as).mapM dec = .ok as := by
  induction as generalizing n with
  | nil => rfl
  | cons a as ih =>
    unfold numbered
    rw [List.mapM_cons, hdec, ih]
    rfl

/-- Numbered rows that replace all rows satisfying `p` are what `p` selects. -/
theorem select_numbered [DecidableEq κ] {t t' : Table ρ κ key} {p : ρ → Bool} (rank : ρ → ℕ)
    (hp : ∀ n a, p (mk n a) = true) (hrank : ∀ n a, rank (mk n a) = n) {n : ℕ} {as : List α}
    (h : (t.deleteWhere p).insertAll (numbered mk n as) = some t') :
    t'.select p (fun a b => rank a ≤ rank b) = numbered mk n as := by
  refine select_eq_of_perm ?_ (numbered_sorted hrank n as)
  have hnew : (numbered mk n as).reverse.filter p = (numbered mk n as).reverse := by
    rw [List.filter_eq_self]
    intro row hrow
    obtain ⟨m, a, -, rfl⟩ := mem_numbered (List.mem_reverse.mp hrow)
    exact hp m a
  have hold : (t.deleteWhere p).rows.filter p = [] := by
    rw [List.filter_eq_nil_iff]
    intro row hrow
    simpa using (List.mem_filter.mp hrow).2
  rw [rows_insertAll h, List.filter_append, hnew, hold, List.append_nil]
  exact List.reverse_perm _

/-- Rows that neither `p` nor the numbered rows concern stay. -/
theorem filter_numbered [DecidableEq κ] {t t' : Table ρ κ key} {p q : ρ → Bool}
    (hq : ∀ n a, q (mk n a) = false) (hpq : ∀ row, q row = true → p row = false) {n : ℕ}
    {as : List α} (h : (t.deleteWhere p).insertAll (numbered mk n as) = some t') :
    t'.rows.filter q = t.rows.filter q := by
  have hnew : (numbered mk n as).reverse.filter q = [] := by
    rw [List.filter_eq_nil_iff]
    intro row hrow
    obtain ⟨m, a, -, rfl⟩ := mem_numbered (List.mem_reverse.mp hrow)
    rw [hq]
    exact Bool.false_ne_true
  rw [rows_insertAll h, List.filter_append, hnew, List.nil_append]
  change (t.rows.filter fun row => !p row).filter q = _
  rw [List.filter_filter]
  refine List.filter_congr fun row _ => ?_
  by_cases hrow : q row = true
  · rw [hrow, hpq row hrow]
    rfl
  · rw [Bool.not_eq_true] at hrow
    rw [hrow]
    rfl

/-- Numbered rows can be inserted where no row satisfies `p`. -/
theorem insertAll_numbered [DecidableEq κ] {t : Table ρ κ key} {p : ρ → Bool}
    (hp : ∀ row n a, key row = key (mk n a) → p row = true)
    (hkey : ∀ n a m b, key (mk n a) = key (mk m b) → n = m) (n : ℕ) (as : List α) :
    ∃ t', (t.deleteWhere p).insertAll (numbered mk n as) = some t' := by
  refine insertAll_of_fresh ?_ fun row hrow => ?_
  · induction as generalizing n with
    | nil => exact List.nodup_nil
    | cons a as ih =>
      refine List.nodup_cons.mpr ⟨fun hmem => ?_, ih (n + 1)⟩
      obtain ⟨row, hrow, heq⟩ := List.mem_map.mp hmem
      obtain ⟨m, b, hle, rfl⟩ := mem_numbered hrow
      have := hkey m b n a heq
      omega
  · obtain ⟨m, a, -, rfl⟩ := mem_numbered hrow
    rw [find_eq_none_iff]
    intro other hother hsame
    have hdeleted := (List.mem_filter.mp hother).2
    rw [hp other m a hsame] at hdeleted
    cases hdeleted

end Numbered

/-! ## Decoding a list of rows -/

/-- All rows decode, one value each and in order. -/
theorem mapM_eq_ok_iff {dec : ρ → Except ε ν} {rows : List ρ} {vs : List ν} :
    rows.mapM dec = .ok vs ↔ List.Forall₂ (fun row v => dec row = .ok v) rows vs := by
  induction rows generalizing vs with
  | nil =>
    rw [List.mapM_nil, List.forall₂_nil_left_iff]
    exact ⟨fun h => (Except.ok.inj h).symm, fun h => congrArg Except.ok h.symm⟩
  | cons row rows ih =>
    rw [List.mapM_cons, List.forall₂_cons_left_iff]
    constructor
    · intro h
      cases hrow : dec row with
      | error e =>
        rw [hrow] at h
        cases h
      | ok v =>
        cases hrows : rows.mapM dec with
        | error e =>
          rw [hrow, hrows] at h
          cases h
        | ok vs' =>
          rw [hrow, hrows] at h
          cases h
          exact ⟨v, vs', rfl, ih.mp hrows, rfl⟩
    · rintro ⟨v, vs', hrow, hrows, rfl⟩
      rw [hrow, ih.mpr hrows]
      rfl

theorem exists_of_forall₂_left {R : ρ → ν → Prop} {rows : List ρ} {vs : List ν}
    (h : List.Forall₂ R rows vs) {row : ρ} (hrow : row ∈ rows) : ∃ v ∈ vs, R row v := by
  induction h with
  | nil => cases hrow
  | cons hR _ ih =>
    rcases List.mem_cons.mp hrow with rfl | hmem
    · exact ⟨_, List.mem_cons_self, hR⟩
    · obtain ⟨v, hv, hRv⟩ := ih hmem
      exact ⟨v, List.mem_cons_of_mem _ hv, hRv⟩

theorem exists_of_forall₂_right {R : ρ → ν → Prop} {rows : List ρ} {vs : List ν}
    (h : List.Forall₂ R rows vs) {v : ν} (hv : v ∈ vs) : ∃ row ∈ rows, R row v :=
  exists_of_forall₂_left h.flip hv

/-- What rows in some order decode to comes in that order. -/
theorem pairwise_of_forall₂ {R : ρ → ν → Prop} {S : ρ → ρ → Prop} {T : ν → ν → Prop}
    (hST : ∀ {a b v w}, R a v → R b w → S a b → T v w) {rows : List ρ} {vs : List ν}
    (h : List.Forall₂ R rows vs) (hrows : rows.Pairwise S) : vs.Pairwise T := by
  induction h with
  | nil => exact .nil
  | cons hR hrest ih =>
    obtain ⟨hfirst, hrest'⟩ := List.pairwise_cons.mp hrows
    refine List.pairwise_cons.mpr ⟨fun w hw => ?_, ih hrest'⟩
    obtain ⟨row, hrow, hRw⟩ := exists_of_forall₂_right hrest hw
    exact hST hR hRw (hfirst row hrow)

/-! ## A table that stores a family -/

/-- The table holds the family `f`, read through `dec`. -/
structure Stores (dec : ρ → Except ε ν) (name : ι → κ) (t : Table ρ κ key) (f : ι → Option ν) :
    Prop where
  named : ∀ row ∈ t.rows, ∃ i, name i = key row
  read : ∀ i, t.read dec (name i) = .ok (f i)

section Stores

variable {dec : ρ → Except ε ν} {name : ι → κ} {t : Table ρ κ key} {f : ι → Option ν}

theorem read_eq_ok_some_iff {k : κ} {v : ν} :
    t.read dec k = .ok (some v) ↔ ∃ row, t.find k = some row ∧ dec row = .ok v := by
  unfold read
  cases t.find k with
  | none => simp
  | some row =>
    simp only [Option.some.injEq, exists_eq_left']
    cases dec row with
    | error e => simp [Except.map]
    | ok w => simp [Except.map]

theorem read_eq_ok_none_iff {k : κ} : t.read dec k = .ok none ↔ t.find k = none := by
  unfold read
  cases t.find k with
  | none => simp
  | some row =>
    simp only [reduceCtorEq, iff_false]
    cases dec row with
    | error e => simp [Except.map]
    | ok w => simp [Except.map]

/-! ### Reading after a statement -/

theorem read_replace {row : ρ} {v : ν} (hdec : dec row = .ok v) (t : Table ρ κ key) (k : κ) :
    (t.replace row).read dec k = if k = key row then .ok (some v) else t.read dec k := by
  unfold read
  rw [find_replace]
  split_ifs
  · simp only [hdec, Except.map]
  · rfl

/-- Deleting the rows that satisfy `p` filters what is read. -/
theorem read_deleteWhere {p : ρ → Bool} {q : ν → Bool}
    (hpq : ∀ row v, dec row = .ok v → p row = q v) {k : κ} {found : Option ν}
    (h : t.read dec k = .ok found) :
    (t.deleteWhere p).read dec k = .ok (found.filter fun v => !q v) := by
  cases found with
  | none =>
    rw [Option.filter_none, read_eq_ok_none_iff, find_deleteWhere, read_eq_ok_none_iff.mp h]
    rfl
  | some v =>
    obtain ⟨row, hfind, hdec⟩ := read_eq_ok_some_iff.mp h
    unfold read
    rw [find_deleteWhere, hfind, Option.filter_some, Option.filter_some, hpq row v hdec]
    split_ifs
    · simp only [hdec, Except.map]
    · rfl

/-- Deleting the row under one key leaves the others. -/
theorem read_deleteKey (dec : ρ → Except ε ν) (t : Table ρ κ key) (k k' : κ) :
    (t.deleteWhere fun row => key row = k).read dec k' =
      if k' = k then .ok none else t.read dec k' := by
  unfold read
  rw [find_deleteWhere]
  cases hfind : t.find k' with
  | none =>
    rw [Option.filter_none]
    split_ifs <;> rfl
  | some row =>
    have hkey := (find_eq_some_iff.mp hfind).2
    rw [Option.filter_some, hkey]
    by_cases hk : k' = k <;> simp [hk]

/-- An update of every row maps what is read. -/
theorem read_update {set : ρ → ρ} {g : ν → ν} (hset : ∀ row, key (set row) = key row)
    (hg : ∀ row v, dec row = .ok v → dec (set row) = .ok (g v)) {k : κ} {found : Option ν}
    (h : t.read dec k = .ok found) : (t.update set hset).read dec k = .ok (found.map g) := by
  cases found with
  | none =>
    rw [Option.map_none, read_eq_ok_none_iff, find_update, read_eq_ok_none_iff.mp h]
    rfl
  | some v =>
    obtain ⟨row, hfind, hdec⟩ := read_eq_ok_some_iff.mp h
    refine read_eq_ok_some_iff.mpr ⟨set row, ?_, hg row v hdec⟩
    rw [find_update, hfind, Option.map_some]

namespace Stores

theorem some_iff (h : Stores dec name t f) {i : ι} {v : ν} :
    f i = some v ↔ ∃ row, t.find (name i) = some row ∧ dec row = .ok v := by
  rw [← read_eq_ok_some_iff, h.read i]
  exact ⟨fun hf => congrArg Except.ok hf, fun hf => Except.ok.inj hf⟩

theorem none_iff (h : Stores dec name t f) {i : ι} : f i = none ↔ t.find (name i) = none := by
  have hread : t.read dec (name i) = .ok none ↔ t.find (name i) = none := read_eq_ok_none_iff
  rw [← hread, h.read i]
  exact ⟨fun hf => congrArg Except.ok hf, fun hf => Except.ok.inj hf⟩

/-- Every row decodes. -/
theorem decodes (h : Stores dec name t f) {row : ρ} (hrow : row ∈ t.rows) :
    ∃ i v, name i = key row ∧ f i = some v ∧ dec row = .ok v := by
  obtain ⟨i, hi⟩ := h.named row hrow
  have hfind : t.find (name i) = some row := find_eq_some_iff.mpr ⟨hrow, hi.symm⟩
  cases hf : f i with
  | none =>
    rw [h.none_iff.mp hf] at hfind
    cases hfind
  | some v =>
    obtain ⟨row', hrow', hdec⟩ := h.some_iff.mp hf
    rw [hfind] at hrow'
    cases hrow'
    exact ⟨i, v, hi, hf, hdec⟩

/-- An inserted or replaced row updates the family at its name. -/
theorem replace [DecidableEq ι] (h : Stores dec name t f) (hname : Function.Injective name) {i : ι}
    {row : ρ} {v : ν} (hkey : key row = name i) (hdec : dec row = .ok v) :
    Stores dec name (t.replace row) (Function.update f i (some v)) where
  named other hother := by
    rcases List.mem_cons.mp hother with rfl | hmem
    · exact ⟨i, hkey.symm⟩
    · exact h.named other (List.mem_filter.mp hmem).1
  read j := by
    rw [read_replace hdec, hkey, Function.update_apply, h.read j]
    simp only [hname.eq_iff]
    split_ifs <;> rfl

/-- A selection decodes to the selected members of the family, each once. -/
theorem select (h : Stores dec name t f) {p : ρ → Bool} {q : ν → Bool} {label : ν → κ}
    (le : ρ → ρ → Bool) (hpq : ∀ row v, dec row = .ok v → p row = q v)
    (hlabel : ∀ row v, dec row = .ok v → label v = key row) :
    ∃ vs, List.Forall₂ (fun row v => dec row = .ok v) (t.select p le) vs ∧ (vs.map label).Nodup ∧
      ∀ v, v ∈ vs ↔ q v = true ∧ ∃ i, f i = some v := by
  have hdecodes : ∀ rows : List ρ, (∀ row ∈ rows, row ∈ t.rows) →
      ∃ vs, List.Forall₂ (fun row v => dec row = .ok v) rows vs := by
    intro rows hrows
    induction rows with
    | nil => exact ⟨[], .nil⟩
    | cons row rows ih =>
      obtain ⟨i, v, -, -, hv⟩ := h.decodes (hrows row List.mem_cons_self)
      obtain ⟨vs, hvs⟩ := ih fun other hother => hrows other (List.mem_cons_of_mem _ hother)
      exact ⟨v :: vs, .cons hv hvs⟩
  obtain ⟨vs, hvs⟩ := hdecodes (t.select p le) fun row hrow => (mem_select.mp hrow).1
  refine ⟨vs, hvs, ?_, fun v => ⟨fun hv => ?_, ?_⟩⟩
  · have hlabels : List.Forall₂ Eq (vs.map label) ((t.select p le).map key) := by
      rw [List.forall₂_map_left_iff, List.forall₂_map_right_iff]
      exact hvs.flip.imp fun v row hrow => hlabel row v hrow
    rw [List.forall₂_eq_eq_eq] at hlabels
    rw [hlabels]
    exact nodup_select_keys p le t
  · obtain ⟨row, hrow, hdec⟩ := exists_of_forall₂_right hvs hv
    obtain ⟨hmem, hp⟩ := mem_select.mp hrow
    obtain ⟨i, w, -, hf, hw⟩ := h.decodes hmem
    rw [hdec] at hw
    cases hw
    exact ⟨(hpq row v hdec).symm.trans hp, i, hf⟩
  · rintro ⟨hq, i, hf⟩
    obtain ⟨row, hfind, hdec⟩ := h.some_iff.mp hf
    have hrow : row ∈ t.select p le :=
      mem_select.mpr ⟨(find_eq_some_iff.mp hfind).1, (hpq row v hdec).trans hq⟩
    obtain ⟨w, hw, hdec'⟩ := exists_of_forall₂_left hvs hrow
    rw [hdec] at hdec'
    cases hdec'
    exact hw

end Stores

end Stores

end Table
