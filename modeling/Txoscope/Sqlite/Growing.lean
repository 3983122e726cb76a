import Mathlib.Data.List.Find
import Txoscope.Sqlite.Schema

/-!
# Files that have grown

What one statement of an opening can do to a file: the file `Extends` the one it was, by new tables,
new columns in tables it had, and a first tick. Everything else reads as before.
-/

namespace Txoscope

/-! ## Tables -/

namespace SqliteStateStore

/-- A table that has got new columns, each with `P` and of a name that was not there. -/
structure Widens (P : String × String → Prop) (name : String) (t t' : FileTable) : Prop where
  leading : t.columns <+: t'.columns
  added : ∀ c ∈ t'.columns, c ∈ t.columns ∨ P (name, c.spelling) ∧ caseFold c.spelling ∉ t.names

namespace Widens

variable {P P' : String × String → Prop} {name : String} {t t' t'' : FileTable}

theorem of_columns (h : t'.columns = t.columns) : Widens P name t t' :=
  ⟨h ▸ List.prefix_rfl, fun _ hc => .inl (h ▸ hc)⟩

theorem mono (hP : ∀ p, P p → P' p) (h : Widens P name t t') : Widens P' name t t' :=
  ⟨h.leading, fun c hc => (h.added c hc).imp_right (And.imp_left (hP _))⟩

theorem trans (h : Widens P name t t') (h' : Widens P name t' t'') : Widens P name t t'' where
  leading := h.leading.trans h'.leading
  added c hc := by
    rcases h'.added c hc with hc | ⟨hP, hnew⟩
    · exact h.added c hc
    · exact .inr ⟨hP, fun hold => hnew (DeclaredTable.mem_names_of_prefix h.leading hold)⟩

theorem of_addColumn {column : String} {type : Affinity} (hP : P (name, column))
    (h : t.addColumn (nullable column type) = some t') : Widens P name t t' := by
  obtain ⟨hnew, hcolumns, -⟩ := DeclaredTable.addColumn_eq_some h
  refine ⟨⟨_, hcolumns.symm⟩, fun c hc => ?_⟩
  rw [hcolumns, List.mem_append, List.mem_singleton] at hc
  rcases hc with hc | rfl
  · exact .inl hc
  · exact .inr ⟨hP, hnew⟩

theorem mem_spellings (h : Widens P name t t') {spelling : String}
    (hs : spelling ∈ t'.spellings) : spelling ∈ t.spellings ∨ P (name, spelling) := by
  obtain ⟨c, hc, rfl⟩ := List.mem_map.mp hs
  exact (h.added c hc).imp (fun hold => List.mem_map.mpr ⟨c, hold, rfl⟩) And.left

/-- A name that is new is that of a column with `P`. -/
theorem mem_names (h : Widens P name t t') {c : String} (hc : c ∈ t'.names) :
    c ∈ t.names ∨ ∃ spelling ∈ t'.spellings, P (name, spelling) ∧ caseFold spelling = c := by
  obtain ⟨col, hcol, rfl⟩ := List.mem_map.mp hc
  rcases h.added col hcol with hold | ⟨hP, -⟩
  · exact .inl (List.mem_map.mpr ⟨col, hold, rfl⟩)
  · exact .inr ⟨_, List.mem_map.mpr ⟨col, hcol, rfl⟩, hP, rfl⟩

/-- What is there in another spelling only is not new: a new column has the spelling of its name. -/
theorem misspelled (h : Widens P name t t')
    (hlower : ∀ spelling, P (name, spelling) → caseFold spelling = spelling) {c : String}
    (hname : c ∈ t'.names) (hspelling : c ∉ t'.spellings) : c ∈ t.names ∧ c ∉ t.spellings := by
  refine ⟨(h.mem_names hname).resolve_right ?_,
    fun hs => hspelling (DeclaredTable.mem_spellings_of_prefix h.leading hs)⟩
  rintro ⟨spelling, hmem, hP, hfold⟩
  rw [hlower spelling hP] at hfold
  exact hspelling (hfold ▸ hmem)

end Widens

end SqliteStateStore

open SqliteStateStore

/-! ## Files -/

namespace SqliteFile

/-- A row of the tick. -/
def IsTick (row : String → Option SqlValue) : Prop := row "key" = some (.text "tick")

/-- The row of a tick that has not moved, as a column stores it. -/
def IsFirstTick (engine : Engine) (row : String → Option SqlValue) : Prop :=
  IsTick row ∧ ∃ type, row "value" = some (engine.convert type (.text "0"))

/-- A file that has got new tables, new columns in tables it had, each with `P`, and first ticks
after the rows of `meta`. Apart from that everything reads as before. -/
structure Extends (engine : Engine) (P : String × String → Prop) (f f' : SqliteFile) : Prop where
  columns : ∀ name t, f.table name = some t → ∃ t', f'.table name = some t' ∧ Widens P name t t'
  content : ∀ name, name ≠ "meta" → f'.content name = f.content name
  tick : ∃ rows, (∀ row ∈ rows, IsFirstTick engine row) ∧
    f'.content "meta" = f.content "meta" ++ rows

variable {engine : Engine} {P P' : String × String → Prop} {f f' f'' : SqliteFile}

theorem Spells.hasColumn {p : String × String} (h : f.Spells p) (hlower : caseFold p.2 = p.2) :
    f.HasColumn p := by
  obtain ⟨t, ht, hmem⟩ := h
  have hname := DeclaredTable.fold_mem_names hmem
  exact ⟨t, ht, hlower ▸ hname⟩

namespace Extends

/-- Tables keep their columns, or get new ones, and everything reads the same. -/
theorem of_content (hcolumns : ∀ name t, f.table name = some t →
      ∃ t', f'.table name = some t' ∧ Widens P name t t')
    (hcontent : ∀ name, f'.content name = f.content name) : Extends engine P f f' where
  columns := hcolumns
  content name _ := hcontent name
  tick := ⟨[], List.forall_mem_nil _, by rw [hcontent, List.append_nil]⟩

theorem refl (f : SqliteFile) : Extends engine P f f :=
  .of_content (fun _ t ht => ⟨t, ht, .of_columns rfl⟩) fun _ => rfl

theorem setUserVersion (version : ℤ) (f : SqliteFile) :
    Extends engine P f { f with userVersion := version } :=
  .of_content (fun _ t ht => ⟨t, ht, .of_columns rfl⟩) fun _ => rfl

theorem mono (hP : ∀ p, P p → P' p) (h : Extends engine P f f') : Extends engine P' f f' := by
  refine ⟨fun name t ht => ?_, h.content, h.tick⟩
  obtain ⟨t', ht', hwidens⟩ := h.columns name t ht
  exact ⟨t', ht', hwidens.mono hP⟩

theorem trans (h : Extends engine P f f') (h' : Extends engine P f' f'') :
    Extends engine P f f'' where
  columns name t ht := by
    obtain ⟨t', ht', hwidens⟩ := h.columns name t ht
    obtain ⟨t'', ht'', hwidens'⟩ := h'.columns name t' ht'
    exact ⟨t'', ht'', hwidens.trans hwidens'⟩
  content name hname := (h'.content name hname).trans (h.content name hname)
  tick := by
    obtain ⟨rows, hrows, heq⟩ := h.tick
    obtain ⟨rows', hrows', heq'⟩ := h'.tick
    refine ⟨rows ++ rows', fun row hrow => ?_, ?_⟩
    · exact (List.mem_append.mp hrow).elim (hrows row) (hrows' row)
    · rw [heq', heq, List.append_assoc]

theorem hasColumn (h : Extends engine P f f') {p : String × String} (hp : f.HasColumn p) :
    f'.HasColumn p := by
  obtain ⟨t, ht, hc⟩ := hp
  obtain ⟨t', ht', hwidens⟩ := h.columns p.1 t ht
  exact ⟨t', ht', DeclaredTable.mem_names_of_prefix hwidens.leading hc⟩

theorem spells (h : Extends engine P f f') {p : String × String} (hp : f.Spells p) :
    f'.Spells p := by
  obtain ⟨t, ht, hc⟩ := hp
  obtain ⟨t', ht', hwidens⟩ := h.columns p.1 t ht
  exact ⟨t', ht', DeclaredTable.mem_spellings_of_prefix hwidens.leading hc⟩

/-- A column that is there in another spelling only was so in a table that was there. -/
theorem misspells (h : Extends engine P f f') {p : String × String}
    (hlower : ∀ spelling, P (p.1, spelling) → caseFold spelling = spelling) {t : FileTable}
    (ht : f.table p.1 = some t) (hp : f'.Misspells p) : f.Misspells p := by
  obtain ⟨t', ht', hname, hspelling⟩ := hp
  obtain ⟨u, hu, hwidens⟩ := h.columns p.1 t ht
  rw [ht'] at hu
  cases hu
  exact ⟨t, ht, hwidens.misspelled hlower hname hspelling⟩

/-- If a column is there in the end with the spelling of its name, it was not there in another. -/
theorem not_misspells (h : Extends engine P f f') {p : String × String}
    (hlower : caseFold p.2 = p.2) (hp : f'.Spells p) : ¬ f.Misspells p := by
  rintro ⟨t, ht, hname, hspelling⟩
  obtain ⟨t', ht', hwidens⟩ := h.columns p.1 t ht
  obtain ⟨u, hu, hmem⟩ := hp
  rw [ht'] at hu
  cases hu
  obtain ⟨c, hc, hcs⟩ := List.mem_map.mp hmem
  rcases hwidens.added c hc with hold | ⟨-, hnew⟩
  · exact hspelling (List.mem_map.mpr ⟨c, hold, hcs⟩)
  · rw [hcs, hlower] at hnew
    exact hnew hname

end Extends

@[simp] theorem table_setTable (f : SqliteFile) (name : String) (t : FileTable) :
    (f.setTable name t).table = Function.update f.table name (some t) := rfl

theorem content_setTable (f : SqliteFile) (name : String) (t : FileTable) (other : String) :
    (f.setTable name t).content other = if other = name then t.content else f.content other := by
  unfold content
  rw [table_setTable, Function.update_apply]
  split_ifs <;> rfl

theorem content_of_table {name : String} {t : FileTable} (h : f.table name = some t) :
    f.content name = t.content := by
  unfold content
  rw [h]
  rfl

/-- A table that is replaced by one with more columns. -/
theorem columns_setTable {name : String} {t t' : FileTable} (ht : f.table name = some t)
    (hwidens : Widens P name t t') (other : String) (u : FileTable)
    (hu : f.table other = some u) :
    ∃ u', (f.setTable name t').table other = some u' ∧ Widens P other u u' := by
  by_cases hother : other = name
  · subst hother
    rw [ht] at hu
    cases hu
    exact ⟨t', Function.update_self .., hwidens⟩
  · exact ⟨u, (Function.update_of_ne hother ..).trans hu, .of_columns rfl⟩

theorem content_setTable_of_eq {name : String} {t t' : FileTable} (ht : f.table name = some t)
    (hcontent : t'.content = t.content) (other : String) :
    (f.setTable name t').content other = f.content other := by
  rw [content_setTable]
  split_ifs with hother
  · rw [hcontent, hother, content_of_table ht]
  · rfl

end SqliteFile

namespace SqliteStateStore

open SqliteFile

variable {engine : Engine} {P : String × String → Prop} {f f' : SqliteFile}

/-! ## One statement -/

namespace SchemaStatement

/-- The statement adds only columns with `P`, and no row but the first tick. -/
def Adds (P : String × String → Prop) : SchemaStatement → Prop
  | addColumn table column _ => P (caseFold table, column)
  | insertOrIgnore table values => table = "meta" ∧ values = firstTick
  | _ => True

theorem execute_createTable_extends (table : String) (columns : List FileColumn)
    (key : List String) (f : SqliteFile) :
    Extends engine P f (execute engine (createTable table columns key) f).2 := by
  dsimp only [execute]
  generalize caseFold table = name
  cases ht : f.table name with
  | some t => exact .refl f
  | none =>
    refine .of_content (fun other t hother => ?_) fun other => ?_
    · have hne : other ≠ name := by
        rintro rfl
        rw [ht] at hother
        cases hother
      exact ⟨t, (Function.update_of_ne hne ..).trans hother, .of_columns rfl⟩
    · rw [content_setTable]
      split_ifs with hother
      · unfold SqliteFile.content
        rw [hother, ht]
        rfl
      · rfl

theorem execute_addColumn_extends {table column : String} (hP : P (caseFold table, column))
    (type : Affinity) (f : SqliteFile) :
    Extends engine P f (execute engine (addColumn table column type) f).2 := by
  dsimp only [execute]
  cases ht : f.table (caseFold table) with
  | none => exact .refl f
  | some t =>
    dsimp only
    cases hadded : t.addColumn ⟨column, type, false, none⟩ with
    | none => exact .refl f
    | some t' =>
      exact .of_content (columns_setTable ht (.of_addColumn hP hadded))
        (content_setTable_of_eq ht (DeclaredTable.content_addColumn hadded rfl))

/-- The row that is inserted reads as a first tick, if it has its columns. -/
theorem isFirstTick_newRow {t : FileTable} (hkey : "key" ∈ t.names) (hvalue : "value" ∈ t.names) :
    IsFirstTick engine (t.value (t.newRow engine.convert firstTick)) := by
  obtain ⟨key, hkey'⟩ := Option.isSome_iff_exists.mp (DeclaredTable.column_isSome.mpr hkey)
  obtain ⟨value, hvalue'⟩ := Option.isSome_iff_exists.mp (DeclaredTable.column_isSome.mpr hvalue)
  unfold IsFirstTick IsTick DeclaredTable.value DeclaredTable.newRow
  rw [if_pos hkey, if_pos hvalue, hkey', hvalue']
  exact ⟨congrArg some (engine.convert_tick _), value.type, rfl⟩

/-- The first tick as it is inserted: the names of the statement are in lower case. -/
theorem execute_firstTick (engine : Engine) {t : FileTable} (ht : f.table "meta" = some t) :
    execute engine (insertOrIgnore "meta" firstTick) f =
      match (firstTick.map (·.1)).find? (· ∉ t.names) with
      | some c => (.error (.storage (engine.describe (.noSuchColumn "meta" c))), f)
      | none => (.ok (), f.setTable "meta" (t.insertOrIgnore engine.convert firstTick)) := by
  have hmeta : caseFold "meta" = "meta" := by decide
  have hlower : ∀ c ∈ firstTick.map (·.1), caseFold c = c := by decide
  have hnames : (firstTick.map (·.1)).find? (caseFold · ∉ t.names) =
      (firstTick.map (·.1)).find? (· ∉ t.names) :=
    List.find?_congr fun c hc => by rw [hlower c hc]
  have hvalues : firstTick.map (Prod.map caseFold id) = firstTick := by
    decide
  cases hfound : (firstTick.map (·.1)).find? (· ∉ t.names) with
  | some c => simp only [execute, hmeta, ht, hnames, hfound]
  | none => simp only [execute, hmeta, ht, hnames, hfound, hvalues]

theorem execute_firstTick_extends (f : SqliteFile) :
    Extends engine P f (execute engine (insertOrIgnore "meta" firstTick) f).2 := by
  cases ht : f.table "meta" with
  | none =>
    have hmeta : caseFold "meta" = "meta" := by decide
    dsimp only [execute]
    rw [hmeta, ht]
    exact .refl f
  | some t =>
    rw [execute_firstTick engine ht]
    cases hfound : (firstTick.map (·.1)).find? (· ∉ t.names) with
    | some column => exact .refl f
    | none =>
      have hall : ∀ c ∈ firstTick.map (·.1), c ∈ t.names := fun c hc => by
        simpa using List.find?_eq_none.mp hfound c hc
      refine ⟨columns_setTable ht (.of_columns (DeclaredTable.insertOrIgnore_columns ..)),
        fun other hother => ?_, ?_⟩
      · rw [content_setTable, if_neg hother]
      · rw [content_setTable, if_pos rfl, content_of_table ht]
        rcases t.insertOrIgnore_cases engine.convert firstTick with hsame | hadded
        · exact ⟨[], List.forall_mem_nil _, by rw [hsame, List.append_nil]⟩
        · refine ⟨_, List.forall_mem_singleton.mpr ?_, hadded⟩
          exact isFirstTick_newRow (hall _ List.mem_cons_self)
            (hall _ (List.mem_cons_of_mem _ List.mem_cons_self))

theorem execute_extends {st : SchemaStatement} (h : st.Adds P) (f : SqliteFile) :
    Extends engine P f (execute engine st f).2 := by
  cases st with
  | createTable table columns key => exact execute_createTable_extends table columns key f
  | addColumn table column type => exact execute_addColumn_extends h type f
  | insertOrIgnore table values =>
    obtain ⟨rfl, rfl⟩ := h
    exact execute_firstTick_extends f
  | setUserVersion version => exact .setUserVersion version f
  | userVersion | tableInfo => exact .refl f
  | prepare table columns =>
    dsimp only [execute]
    generalize caseFold table = name
    cases f.table name with
    | none => exact .refl f
    | some t =>
      dsimp only
      cases columns.find? (caseFold · ∉ t.names) <;> exact .refl f

end SchemaStatement

end SqliteStateStore

end Txoscope
