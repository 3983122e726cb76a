import Mathlib.Data.List.Infix
import Mathlib.Logic.Function.Basic
import Txoscope.Lib.Table

/-!
# Tables with declared columns

A `DeclaredTable` is what a relational store keeps on file: columns, each of which has a type and
may refuse nulls or have a default, the names of the primary key, and rows, under the statements
that change the columns or the rows. A column keeps the spelling it was declared with, but it is
named by what `fold` makes of that, so that two spellings may be one name. What is read in a column
that is not declared is null, so `content`, the rows as they read, is not changed by a column that is
added without a default.
-/

/-- A column as it is declared. -/
structure Column (σ τ ν : Type) where
  spelling : σ
  type : τ
  notNull : Bool
  default : Option ν
  deriving DecidableEq

/-- Declared columns, the columns of the primary key, and rows. -/
structure DeclaredTable {σ κ : Type} (fold : σ → κ) (τ ν : Type) where
  columns : List (Column σ τ ν)
  key : List κ
  rows : List (κ → Option ν)

namespace DeclaredTable

variable {σ κ τ ν : Type} {fold : σ → κ} [DecidableEq κ] {t t' : DeclaredTable fold τ ν}

/-! ## Columns -/

def names (t : DeclaredTable fold τ ν) : List κ := t.columns.map (fold ·.spelling)

def spellings (t : DeclaredTable fold τ ν) : List σ := t.columns.map (·.spelling)

/-- The column of that name. -/
def column (t : DeclaredTable fold τ ν) (name : κ) : Option (Column σ τ ν) :=
  t.columns.find? (fold ·.spelling = name)

/-- `ALTER TABLE t ADD COLUMN c`, which fails if there is a column of that name. -/
def addColumn (c : Column σ τ ν) (t : DeclaredTable fold τ ν) :
    Option (DeclaredTable fold τ ν) :=
  if fold c.spelling ∈ t.names then none else
    some { t with columns := t.columns ++ [c],
                  rows := t.rows.map fun row => Function.update row (fold c.spelling) c.default }

theorem addColumn_eq_some {c : Column σ τ ν} (h : t.addColumn c = some t') :
    fold c.spelling ∉ t.names ∧ t'.columns = t.columns ++ [c] ∧
      t'.rows = t.rows.map fun row => Function.update row (fold c.spelling) c.default := by
  unfold addColumn at h
  split_ifs at h with hmem
  cases h
  exact ⟨hmem, rfl, rfl⟩

theorem key_addColumn {c : Column σ τ ν} (h : t.addColumn c = some t') : t'.key = t.key := by
  unfold addColumn at h
  split_ifs at h
  cases h
  rfl

omit [DecidableEq κ] in
theorem fold_mem_names {s : σ} (h : s ∈ t.spellings) : fold s ∈ t.names := by
  obtain ⟨c, hc, rfl⟩ := List.mem_map.mp h
  exact List.mem_map.mpr ⟨c, hc, rfl⟩

omit [DecidableEq κ] in
theorem mem_names_of_prefix (h : t.columns <+: t'.columns) {name : κ} (hn : name ∈ t.names) :
    name ∈ t'.names := (List.IsPrefix.map _ h).subset hn

omit [DecidableEq κ] in
theorem mem_spellings_of_prefix (h : t.columns <+: t'.columns) {s : σ} (hs : s ∈ t.spellings) :
    s ∈ t'.spellings := (List.IsPrefix.map _ h).subset hs

theorem column_isSome {name : κ} : (t.column name).isSome = true ↔ name ∈ t.names := by
  unfold column names
  rw [List.find?_isSome, List.mem_map]
  simp only [decide_eq_true_eq]

theorem column_eq_some {name : κ} {c : Column σ τ ν} (h : t.column name = some c) :
    c ∈ t.columns ∧ fold c.spelling = name :=
  ⟨List.mem_of_find?_eq_some h, by simpa using List.find?_some h⟩

/-! ## Rows as they read -/

/-- What is read in a column of a row; a column that is not declared reads as null. -/
def value (t : DeclaredTable fold τ ν) (row : κ → Option ν) (name : κ) : Option ν :=
  if name ∈ t.names then row name else none

def content (t : DeclaredTable fold τ ν) : List (κ → Option ν) := t.rows.map t.value

/-- Nothing reads differently after a column is added that has no default. -/
theorem content_addColumn {c : Column σ τ ν} (h : t.addColumn c = some t')
    (hnull : c.default = none) : t'.content = t.content := by
  obtain ⟨hnew, hcolumns, hrows⟩ := addColumn_eq_some h
  have hnames : t'.names = t.names ++ [fold c.spelling] := by
    unfold names
    rw [hcolumns, List.map_append]
    rfl
  have hsame : t'.value ∘ (fun row => Function.update row (fold c.spelling) c.default) =
      t.value := by
    funext row name
    change t'.value (Function.update row (fold c.spelling) c.default) name = t.value row name
    unfold value
    rw [hnames, hnull]
    by_cases hc : name = fold c.spelling
    · subst hc
      simp [hnew]
    · simp [hc]
  unfold content
  rw [hrows, List.map_map, hsame]

/-! ## Rows that are added -/

section Added

variable (convert : τ → ν → ν)

/-- The row that is added for some given columns: the others have their default, and each value is
converted to the type of its column. -/
def newRow (t : DeclaredTable fold τ ν) (values : List (κ × Option ν)) (name : κ) : Option ν :=
  (t.column name).bind fun c => ((values.lookup name).getD c.default).map (convert c.type)

/-- A column that refuses nulls has one. -/
def Unfit (t : DeclaredTable fold τ ν) (row : κ → Option ν) : Prop :=
  ∃ c ∈ t.columns, c.notNull = true ∧ row (fold c.spelling) = none

instance (t : DeclaredTable fold τ ν) (row : κ → Option ν) : Decidable (t.Unfit row) :=
  decidable_of_iff (∃ c ∈ t.columns, c.notNull = true ∧ (row (fold c.spelling)).isNone = true)
    (by simp only [Option.isNone_iff_eq_none]; rfl)

variable [DecidableEq ν]

/-- Both rows have one primary key; no key with a null in it is that of another row. -/
def SameKey (t : DeclaredTable fold τ ν) (row row' : κ → Option ν) : Prop :=
  t.key ≠ [] ∧ ∀ k ∈ t.key, (t.value row k).isSome = true ∧ t.value row k = t.value row' k

instance (t : DeclaredTable fold τ ν) (row row' : κ → Option ν) : Decidable (t.SameKey row row') :=
  inferInstanceAs (Decidable (t.key ≠ [] ∧
    ∀ k ∈ t.key, (t.value row k).isSome = true ∧ t.value row k = t.value row' k))

/-- `INSERT OR IGNORE INTO t`: a row that does not fit, or whose key is there, is not added. -/
def insertOrIgnore (values : List (κ × Option ν)) (t : DeclaredTable fold τ ν) :
    DeclaredTable fold τ ν :=
  if t.Unfit (t.newRow convert values) ∨ ∃ row ∈ t.rows, t.SameKey (t.newRow convert values) row
  then t else { t with rows := t.rows ++ [t.newRow convert values] }

theorem insertOrIgnore_columns (values : List (κ × Option ν)) (t : DeclaredTable fold τ ν) :
    (t.insertOrIgnore convert values).columns = t.columns := by
  unfold insertOrIgnore
  split_ifs <;> rfl

/-- Either nothing is added, and nothing would be if it was repeated, or the row is. -/
theorem insertOrIgnore_cases (values : List (κ × Option ν)) (t : DeclaredTable fold τ ν) :
    t.insertOrIgnore convert values = t ∨
      (t.insertOrIgnore convert values).content =
        t.content ++ [t.value (t.newRow convert values)] := by
  unfold insertOrIgnore
  split_ifs with h
  · exact .inl rfl
  · exact .inr List.map_append

end Added

/-! ## Rows that are replaced -/

section Replaced

variable (convert : τ → ν → ν)

/-- The row that `INSERT OR REPLACE` adds: as `newRow`, but a null that a column refuses becomes its
default. -/
def replacingRow (t : DeclaredTable fold τ ν) (values : List (κ × Option ν)) (name : κ) :
    Option ν :=
  (t.newRow convert values name).or ((t.column name).bind fun c =>
    if c.notNull then c.default.map (convert c.type) else none)

variable {convert}

/-- A column that is given holds what it is given, if it has no default and stores that as it is. -/
theorem value_replacingRow {values : List (κ × Option ν)} {name : κ} {v : Option ν}
    (hname : name ∈ t.names) (hgiven : values.lookup name = some v)
    (hplain : ∀ c ∈ t.columns, fold c.spelling = name →
      c.default = none ∧ v.map (convert c.type) = v) :
    t.value (t.replacingRow convert values) name = v := by
  obtain ⟨c, hc⟩ := Option.isSome_iff_exists.mp (column_isSome.mpr hname)
  obtain ⟨hmem, hspelled⟩ := column_eq_some hc
  obtain ⟨hdefault, hstored⟩ := hplain c hmem hspelled
  unfold value replacingRow newRow
  rw [if_pos hname, hc, hgiven, Option.bind_some, Option.bind_some, Option.getD_some, hstored,
    hdefault, Option.map_none, ite_self, Option.or_none]

/-- The row does not fit if a column refuses null and is not given more, nor has a default. -/
theorem unfit_replacingRow {values : List (κ × Option ν)} (hnames : t.names.Nodup) :
    t.Unfit (t.replacingRow convert values) ↔ ∃ c ∈ t.columns, c.notNull = true ∧
      (values.lookup (fold c.spelling)).join = none ∧ c.default = none := by
  unfold Unfit
  refine exists_congr fun c => and_congr_right fun hc => and_congr_right fun hnull => ?_
  have hfind : t.column (fold c.spelling) = some c := by
    obtain ⟨c', hc'⟩ := Option.isSome_iff_exists.mp
      (column_isSome.mpr (List.mem_map.mpr ⟨c, hc, rfl⟩ : fold c.spelling ∈ t.names))
    obtain ⟨hmem, hspelled⟩ := column_eq_some hc'
    rw [hc', List.inj_on_of_nodup_map hnames hmem hc hspelled]
  unfold replacingRow newRow
  rw [hfind]
  cases values.lookup (fold c.spelling) with
  | none => simp [hnull]
  | some v => cases v <;> simp [hnull]

variable [DecidableEq ν]

/-- `INSERT OR REPLACE INTO t`, of a row that fits; where it stands among the rows says nothing. -/
def insertOrReplace (row : κ → Option ν) (t : DeclaredTable fold τ ν) : DeclaredTable fold τ ν :=
  { t with rows := row :: t.rows.filter fun other => ¬ t.SameKey row other }

/-- The rows that refer to a key are deleted with it; `as` is how a value is compared with a key. -/
def deleteReferring (as : ν → ν) (name : κ) (k : ν) (t : DeclaredTable fold τ ν) :
    DeclaredTable fold τ ν :=
  { t with rows := t.rows.filter fun row => (t.value row name).map as ≠ some k }

theorem content_deleteReferring (as : ν → ν) (name : κ) (k : ν) (t : DeclaredTable fold τ ν) :
    (t.deleteReferring as name k).content =
      t.content.filter fun row => (row name).map as ≠ some k := by
  unfold content deleteReferring
  rw [List.filter_map]
  rfl

end Replaced

/-! ### Rows of a keyed table -/

section Keyed

variable {ρ ι : Type} {key : ρ → ι} {dec : (κ → Option ν) → Option ρ}

omit [DecidableEq κ] in
theorem mapM_filter {p : (κ → Option ν) → Bool} {q : ρ → Bool}
    (hpq : ∀ row x, dec row = some x → p row = q x) {rows : List (κ → Option ν)} {xs : List ρ}
    (h : rows.mapM dec = some xs) : (rows.filter p).mapM dec = some (xs.filter q) := by
  induction rows generalizing xs with
  | nil =>
    cases h
    rfl
  | cons row rows ih =>
    rw [List.mapM_cons] at h
    obtain ⟨x, hx, h⟩ := Option.bind_eq_some_iff.mp h
    obtain ⟨ys, hys, h⟩ := Option.bind_eq_some_iff.mp h
    cases h
    have hrest := ih hys
    rw [List.filter_cons, List.filter_cons, hpq row x hx]
    split_ifs
    · rw [List.mapM_cons, hx, hrest]
      rfl
    · exact hrest

omit [DecidableEq κ] in
theorem mapM_any {p : (κ → Option ν) → Bool} {q : ρ → Bool}
    (hpq : ∀ row x, dec row = some x → p row = q x) {rows : List (κ → Option ν)} {xs : List ρ}
    (h : rows.mapM dec = some xs) : rows.any p = xs.any q := by
  induction rows generalizing xs with
  | nil =>
    cases h
    rfl
  | cons row rows ih =>
    rw [List.mapM_cons] at h
    obtain ⟨x, hx, h⟩ := Option.bind_eq_some_iff.mp h
    obtain ⟨ys, hys, h⟩ := Option.bind_eq_some_iff.mp h
    cases h
    rw [List.any_cons, List.any_cons, hpq row x hx, ih hys]

variable [DecidableEq ν] {tab : Table ρ ι key}

omit [DecidableEq ν] in
/-- A row has the primary key of another if that is in the column of the primary key. -/
theorem sameKey_iff {row row' : κ → Option ν} {keyColumn : κ} {k : ν} (hkey : t.key = [keyColumn])
    (hrow : t.value row keyColumn = some k) :
    t.SameKey row row' ↔ t.value row' keyColumn = some k := by
  unfold SameKey
  rw [hkey]
  simp only [ne_eq, List.cons_ne_nil, not_false_eq_true, List.mem_singleton, forall_eq, true_and,
    hrow, Option.isSome_some]
  exact eq_comm

/-- If the rows read as those of a keyed table, whose keys are the values of a column, then a value
is found in that column exactly if there is a row under that key. -/
theorem any_content_eq_isSome [DecidableEq ι] {keyColumn : κ} {embed : ι → ν}
    (hembed : Function.Injective embed)
    (hdec : ∀ row x, dec row = some x → row keyColumn = some (embed (key x)))
    (h : t.content.mapM dec = some tab.rows) (k : ι) :
    (t.rows.any fun row => t.value row keyColumn = some (embed k)) = (tab.find k).isSome := by
  have hany := mapM_any (p := fun row => row keyColumn = some (embed k)) (q := fun x => key x = k)
    (fun row x hx => by simp only [hdec row x hx, Option.some.injEq, hembed.eq_iff]) h
  have hcontent : (t.content.any fun row => row keyColumn = some (embed k)) =
      t.rows.any fun row => t.value row keyColumn = some (embed k) := List.any_map
  rw [← hcontent, hany]
  unfold Table.find
  rw [Bool.eq_iff_iff, List.any_eq_true, List.find?_isSome]

/-- If the rows read as those of a keyed table, whose keys are the values of the column of the
primary key, then replacing a row replaces it there. -/
theorem mapM_content_insertOrReplace [DecidableEq ι] {x : ρ} {row : κ → Option ν} {keyColumn : κ}
    {embed : ι → ν} (hembed : Function.Injective embed) (hkey : t.key = [keyColumn])
    (hdec : ∀ row x, dec row = some x → row keyColumn = some (embed (key x)))
    (hnew : dec (t.value row) = some x) (h : t.content.mapM dec = some tab.rows) :
    (t.insertOrReplace row).content.mapM dec = some (tab.replace x).rows := by
  have hrows : (t.insertOrReplace row).content = t.value row ::
      t.content.filter fun other => other keyColumn ≠ some (embed (key x)) := by
    unfold content insertOrReplace
    rw [List.map_cons, List.filter_map]
    refine congrArg (List.cons _) (congrArg (List.map t.value) ?_)
    refine List.filter_congr fun other _ => ?_
    simp only [Function.comp_apply, sameKey_iff hkey (hdec _ _ hnew), ne_eq]
  have hothers := mapM_filter (p := fun row => row keyColumn ≠ some (embed (key x)))
    (q := fun y => key y ≠ key x)
    (fun row y hy => by simp only [hdec row y hy, ne_eq, Option.some.injEq, hembed.eq_iff]) h
  rw [hrows, List.mapM_cons, hnew, hothers]
  rfl

end Keyed

end DeclaredTable
