import Txoscope.Memory.Faults
import Txoscope.Sqlite.Growing

/-!
# What opening a file does to it

A file is `Openable` if its version is not newer than the program, no column is missing that the
program would not add, and none that it would add is there in another spelling. Opening such a file
alone succeeds and leaves the current schema (`open_exact`), and a file stays openable, and reads
the same, whatever part of however many openings is executed in whatever order
(`openings_openable`, `openings_keep`): an opening that was cut off, failed, or ran into another one
can be repeated.
-/

namespace Txoscope

namespace SqliteStateStore

open SqliteFile

variable {engine : Engine} {P : String × String → Prop} {f f' : SqliteFile}

/-! ## Files that can be opened -/

def conflictColumns : List (String × String) :=
  [("utxos", "conflict_message"), ("utxos", "conflict_recorded_at")]

def expiryColumns : List (String × String) := expiring.map (·, "expires_at")

/-- The type that a column is added with. -/
def addedType (column : String) : Affinity :=
  if column = "conflict_message" then .text else .integer

/-- The column is added to a file of this version. -/
def IsAdded (version : ℤ) (p : String × String) : Prop :=
  version < 2 ∧ p ∈ conflictColumns ∨ version < 3 ∧ p ∈ expiryColumns

instance (version : ℤ) : DecidablePred (IsAdded version) := fun _ => instDecidableOr

theorem IsAdded.mem {version : ℤ} {p : String × String} (h : IsAdded version p) :
    p ∈ conflictColumns ++ expiryColumns :=
  List.mem_append.mpr (h.imp And.right And.right)

/-- The columns that are checked. -/
def checked : List (String × String) := queries.flatMap fun query => query.2.map (query.1, ·)

/-- The program writes its names in lower case. -/
theorem caseFold_added : ∀ p ∈ conflictColumns ++ expiryColumns,
    caseFold p.1 = p.1 ∧ caseFold p.2 = p.2 := by
  decide

theorem caseFold_schema : ∀ entry ∈ schema, caseFold entry.1 = entry.1 ∧
    ∀ c ∈ entry.2.1, caseFold c.spelling = c.spelling := by
  decide +kernel

theorem caseFold_queries : ∀ query ∈ queries, caseFold query.1 = query.1 ∧
    ∀ c ∈ query.2, caseFold c = c := by
  decide +kernel

theorem caseFold_isAdded {version : ℤ} {name spelling : String}
    (h : IsAdded version (name, spelling)) : caseFold spelling = spelling :=
  (caseFold_added _ h.mem).2

/-- The file is not newer than the program, has every column that is checked and not added, as far
as it has the table, and has no column that is added in another spelling. -/
structure Openable (f : SqliteFile) : Prop where
  version : f.userVersion ≤ schemaVersion
  columns : ∀ p ∈ checked, ∀ t, f.table p.1 = some t → p.2 ∈ t.names ∨ IsAdded f.userVersion p
  spelled : ∀ p, IsAdded f.userVersion p → ¬ f.Misspells p
  tick : ∀ t, f.table "meta" = some t → ∀ c ∈ firstTick.map (·.1), c ∈ t.names

theorem all_eq_true {α : Type} {o : Option α} {p : α → Bool} :
    o.all p = true ↔ ∀ a, o = some a → p a = true := by
  cases o with
  | none => exact iff_of_true rfl fun _ h => nomatch h
  | some a =>
    refine ⟨fun h b hb => ?_, fun h => h a rfl⟩
    cases hb
    exact h

instance (f : SqliteFile) : DecidablePred f.Misspells := fun p =>
  decidable_of_iff ((f.table p.1).any fun t => p.2 ∈ t.names ∧ p.2 ∉ t.spellings) (by
    unfold Misspells
    cases f.table p.1 <;> simp)

theorem openable_iff : Openable f ↔ f.userVersion ≤ schemaVersion ∧
    (∀ p ∈ checked, (f.table p.1).all fun t => p.2 ∈ t.names ∨ IsAdded f.userVersion p) ∧
      (∀ p ∈ conflictColumns ++ expiryColumns, IsAdded f.userVersion p → ¬ f.Misspells p) ∧
        (f.table "meta").all fun t => ∀ c ∈ firstTick.map (·.1), c ∈ t.names := by
  refine ⟨fun h => ⟨h.version, fun p hp => ?_, fun p _ hp => h.spelled p hp, ?_⟩,
    fun ⟨hversion, hcolumns, hspelled, htick⟩ =>
      ⟨hversion, fun p hp t ht => ?_, fun p hp => hspelled p hp.mem hp, fun t ht => ?_⟩⟩
  · exact all_eq_true.mpr fun t ht => decide_eq_true (h.columns p hp t ht)
  · exact all_eq_true.mpr fun t ht => decide_eq_true (h.tick t ht)
  · exact of_decide_eq_true (all_eq_true.mp (hcolumns p hp) t ht)
  · exact of_decide_eq_true (all_eq_true.mp htick t ht)

instance : DecidablePred Openable := fun _ => decidable_of_iff' _ openable_iff

/-- What a client gets to know of a file. -/
inductive SchemaFact where
  /-- A column is declared. -/
  | column (table column : String)
  /-- When the file was found, its version was below 2. -/
  | old

/-- The columns of a table, as they are listed. -/
def listed (table : String) (columns : List String) : Set SchemaFact :=
  {fact | ∃ c ∈ columns, fact = .column (caseFold table) (caseFold c)}

/-- What a client may do to a file, by what it knows of it. -/
def schemaContract : Contract SchemaStatement SchemaStatement.Out DomainError SchemaFact where
  allows K
    | .createTable table columns key => (table, columns, key) ∈ schema
    | .addColumn table column type =>
      (table, column) ∈ conflictColumns ++ expiryColumns ∧ type = addedType column
    | .setUserVersion version =>
      version = 2 ∧ .old ∈ K ∧ (∀ p ∈ conflictColumns, .column p.1 p.2 ∈ K) ∨
        version = schemaVersion ∧ ∀ p ∈ checked, .column p.1 p.2 ∈ K
    | .insertOrIgnore table values => table = "meta" ∧ values = firstTick
    | .userVersion | .tableInfo _ | .prepare _ _ => True
  tells
    | .userVersion, .ok version => {fact | fact = .old ∧ version < 2}
    | .tableInfo table, .ok columns => listed table columns
    | .addColumn table column _, .ok _ => listed table [column]
    | .prepare table columns, .ok _ => listed table columns
    | _, _ => ∅
  mono hK st h := by
    cases st with
    | setUserVersion version =>
      exact h.imp (And.imp_right (And.imp (hK ·) fun h p hp => hK (h p hp)))
        (And.imp_right fun h p hp => hK (h p hp))
    | createTable | userVersion | tableInfo | addColumn | prepare | insertOrIgnore => exact h

/-- What is true of a file that was found in this version. -/
def schemaFacts (version : ℤ) (f : SqliteFile) : Set SchemaFact
  | .column table column => f.HasColumn (table, column)
  | .old => version < 2

namespace SchemaStatement

theorem allows_adds {st : SchemaStatement} {K : Set SchemaFact}
    (h : schemaContract.allows K st) : st.Adds (· ∈ conflictColumns ++ expiryColumns) := by
  cases st with
  | addColumn table column type =>
    have hlower : caseFold table = table := (caseFold_added _ h.1).1
    change (caseFold table, column) ∈ conflictColumns ++ expiryColumns
    rw [hlower]
    exact h.1
  | insertOrIgnore => exact h
  | createTable | userVersion | setUserVersion | tableInfo | prepare => trivial

/-- A table whose columns are known has the columns. -/
theorem listed_subset {version : ℤ} {table : String} {columns : List String} {t : FileTable}
    (ht : f.table (caseFold table) = some t) (hcolumns : ∀ c ∈ columns, caseFold c ∈ t.names) :
    listed table columns ⊆ schemaFacts version f := by
  rintro _ ⟨c, hc, rfl⟩
  exact ⟨t, ht, hcolumns c hc⟩

/-- What an answer tells is true, and stays true. -/
theorem execute_tells {version : ℤ} {st : SchemaStatement} {K : Set SchemaFact}
    (h : schemaContract.allows K st) (hold : f.userVersion < 2 → version < 2) :
    schemaFacts version f ∪ schemaContract.tells st (execute engine st f).1 ⊆
      schemaFacts version (execute engine st f).2 := by
  have hextends : Extends engine _ f (execute engine st f).2 := execute_extends (allows_adds h) f
  refine Set.union_subset (fun fact hfact => ?_) ?_
  · cases fact with
    | column table column => exact hextends.hasColumn hfact
    | old => exact hfact
  cases st with
  | createTable table columns key =>
    cases (execute engine (createTable table columns key) f).1 <;> exact Set.empty_subset _
  | userVersion =>
    rintro _ ⟨rfl, hlt⟩
    exact hold hlt
  | setUserVersion => exact Set.empty_subset _
  | insertOrIgnore table values =>
    cases (execute engine (insertOrIgnore table values) f).1 <;> exact Set.empty_subset _
  | tableInfo table =>
    dsimp only [execute]
    cases ht : f.table (caseFold table) with
    | none =>
      rintro _ ⟨c, hc, -⟩
      cases hc
    | some t => exact listed_subset ht fun c hc => DeclaredTable.fold_mem_names hc
  | addColumn table column type =>
    dsimp only [execute]
    cases ht : f.table (caseFold table) with
    | none => exact Set.empty_subset _
    | some t =>
      dsimp only
      cases hadded : t.addColumn ⟨column, type, false, none⟩ with
      | none => exact Set.empty_subset _
      | some t' =>
        refine listed_subset (f := f.setTable (caseFold table) t') (Function.update_self ..)
          fun c hc => ?_
        rw [List.mem_singleton.mp hc]
        obtain ⟨-, hcolumns, -⟩ := DeclaredTable.addColumn_eq_some hadded
        unfold DeclaredTable.names
        rw [hcolumns, List.map_append]
        exact List.mem_append_right _ List.mem_cons_self
  | prepare table columns =>
    dsimp only [execute]
    cases ht : f.table (caseFold table) with
    | none => exact Set.empty_subset _
    | some t =>
      dsimp only
      cases hfound : columns.find? (caseFold · ∉ t.names) with
      | some column => exact Set.empty_subset _
      | none =>
        exact listed_subset ht fun c hc => by simpa using List.find?_eq_none.mp hfound c hc

/-- Only one statement changes the version. -/
theorem execute_userVersion (st : SchemaStatement) (h : ∀ version, st ≠ setUserVersion version)
    (f : SqliteFile) : (execute engine st f).2.userVersion = f.userVersion := by
  cases st with
  | setUserVersion version => exact (h version rfl).elim
  | userVersion | tableInfo => rfl
  | createTable table columns key =>
    dsimp only [execute]
    split <;> rfl
  | addColumn table column type =>
    dsimp only [execute]
    split
    · rfl
    · split <;> rfl
  | prepare table columns =>
    dsimp only [execute]
    split
    · rfl
    · split <;> rfl
  | insertOrIgnore table values =>
    dsimp only [execute]
    split
    · rfl
    · split <;> rfl

/-- No statement a client may execute makes a file older. -/
theorem execute_old {st : SchemaStatement} {K : Set SchemaFact}
    (h : schemaContract.allows K st) (hlt : (execute engine st f).2.userVersion < 2) :
    f.userVersion < 2 := by
  by_cases hst : ∃ version, st = setUserVersion version
  · obtain ⟨version, rfl⟩ := hst
    change version < 2 at hlt
    rcases h with ⟨rfl, -⟩ | ⟨rfl, -⟩
    · exact absurd hlt (by decide)
    · exact absurd hlt (by decide)
  · rwa [execute_userVersion st (fun version hv => hst ⟨version, hv⟩)] at hlt

end SchemaStatement

/-- The tables that are created have the columns that are checked. -/
theorem schema_checked : ∀ entry ∈ schema,
    (∀ p ∈ checked, p.1 = entry.1 → p.2 ∈ entry.2.1.map (caseFold ·.spelling)) ∧
      (entry.1 = "meta" →
        ∀ c ∈ firstTick.map (·.1), c ∈ entry.2.1.map (caseFold ·.spelling)) := by
  decide +kernel

/-- A table that the program declares. -/
def Declared (name : String) (t : FileTable) : Prop :=
  ∃ columns key, (name, columns, key) ∈ schema ∧ t = declared columns key

namespace Declared

variable {name : String} {t : FileTable}

theorem names (h : Declared name t) {c : String} (hc : (name, c) ∈ checked) : c ∈ t.names := by
  obtain ⟨columns, key, hmem, rfl⟩ := h
  exact (schema_checked _ hmem).1 _ hc rfl

theorem tick_names (h : Declared "meta" t) : ∀ c ∈ firstTick.map (·.1), c ∈ t.names := by
  obtain ⟨columns, key, hmem, rfl⟩ := h
  exact (schema_checked _ hmem).2 rfl

theorem spellings (h : Declared name t) {c : String} (hc : c ∈ t.names) : c ∈ t.spellings := by
  obtain ⟨columns, key, hmem, rfl⟩ := h
  obtain ⟨col, hcol, rfl⟩ := List.mem_map.mp hc
  exact List.mem_map.mpr ⟨col, hcol, ((caseFold_schema _ hmem).2 col hcol).symm⟩

end Declared

/-- What a statement may do to a table. -/
inductive TableStep (engine : Engine) (name : String) :
    Option FileTable → Option FileTable → Prop where
  | same {table : Option FileTable} : TableStep engine name table table
  | created {t : FileTable} : Declared name t → TableStep engine name none (some t)
  | added {t t' : FileTable} {column : String} :
      (name, column) ∈ conflictColumns ++ expiryColumns →
      t.addColumn (nullable column (addedType column)) = some t' →
      TableStep engine name (some t) (some t')
  | ticked {t : FileTable} : name = "meta" →
      TableStep engine name (some t) (some (t.insertOrIgnore engine.convert firstTick))

theorem TableStep.setTable {table : String} {t' : FileTable}
    (h : TableStep engine table (f.table table) (some t')) (name : String) :
    TableStep engine name (f.table name) ((f.setTable table t').table name) := by
  rw [table_setTable, Function.update_apply]
  split_ifs with hname
  · exact hname ▸ h
  · exact .same

theorem SchemaStatement.execute_table (engine : Engine) {st : SchemaStatement} {K : Set SchemaFact}
    (hallowed : schemaContract.allows K st) (f : SqliteFile) (name : String) :
    TableStep engine name (f.table name) ((execute engine st f).2.table name) := by
  cases st with
  | userVersion | setUserVersion | tableInfo => exact .same
  | createTable table columns key =>
    have hlower : caseFold table = table := (caseFold_schema _ hallowed).1
    dsimp only [execute]
    rw [hlower]
    cases ht : f.table table with
    | some t => exact .same
    | none =>
      refine TableStep.setTable ?_ name
      rw [ht]
      exact .created ⟨columns, key, hallowed, rfl⟩
  | addColumn table column type =>
    obtain ⟨hmem, rfl⟩ := hallowed
    have hlower : caseFold table = table := (caseFold_added _ hmem).1
    dsimp only [execute]
    rw [hlower]
    cases ht : f.table table with
    | none => exact .same
    | some t =>
      dsimp only
      cases hadded : t.addColumn ⟨column, addedType column, false, none⟩ with
      | none => exact .same
      | some t' =>
        refine TableStep.setTable ?_ name
        rw [ht]
        exact .added hmem hadded
  | prepare table columns =>
    dsimp only [execute]
    split
    · exact .same
    · split <;> exact .same
  | insertOrIgnore table values =>
    obtain ⟨rfl, rfl⟩ := hallowed
    cases ht : f.table "meta" with
    | none =>
      have hmeta : caseFold "meta" = "meta" := by decide
      dsimp only [execute]
      rw [hmeta, ht]
      exact .same
    | some t =>
      rw [execute_firstTick engine ht]
      split
      · exact .same
      · refine TableStep.setTable ?_ name
        rw [ht]
        exact .ticked rfl

/-- A table of which columns were added, or that was declared. -/
def Grown (f : SqliteFile) (name : String) (t' : FileTable) : Prop :=
  (∃ t, f.table name = some t ∧ Widens (· ∈ conflictColumns ++ expiryColumns) name t t') ∨
    Declared name t'

theorem TableStep.grown {name : String} {t' : FileTable}
    (h : TableStep engine name (f.table name) (some t')) : Grown f name t' := by
  generalize ht : f.table name = table at h
  cases h with
  | same => exact .inl ⟨t', ht, .of_columns rfl⟩
  | created hdeclared => exact .inr hdeclared
  | added hmem hadded => exact .inl ⟨_, ht, .of_addColumn hmem hadded⟩
  | ticked => exact .inl ⟨_, ht, .of_columns (DeclaredTable.insertOrIgnore_columns ..)⟩

/-- An openable file, which was found in that version. -/
structure OpenableSince (found : ℤ) (f : SqliteFile) : Prop extends Openable f where
  since : ∀ p, IsAdded found p → ¬ f.Misspells p

theorem Openable.now (h : Openable f) : OpenableSince f.userVersion f := ⟨h, h.spelled⟩

namespace OpenableSince

variable {found : ℤ}

/-- A file of this version whose tables have grown is openable as well. -/
theorem grow (h : OpenableSince found f) (hversion : f'.userVersion = f.userVersion)
    (htables : ∀ name t', f'.table name = some t' → Grown f name t') :
    OpenableSince found f' := by
  have hspelled : ∀ p, ¬ f.Misspells p → ¬ f'.Misspells p := by
    rintro p hp ⟨t', ht', hname, hspelling⟩
    rcases htables p.1 t' ht' with ⟨t, ht, hwidens⟩ | hdeclared
    · have hlower : ∀ spelling, (p.1, spelling) ∈ conflictColumns ++ expiryColumns →
          caseFold spelling = spelling := fun spelling hmem => (caseFold_added _ hmem).2
      exact hp ⟨t, ht, hwidens.misspelled hlower hname hspelling⟩
    · exact hspelling (hdeclared.spellings hname)
  refine ⟨⟨hversion ▸ h.version, fun p hp t' ht' => ?_,
    fun p hp => hspelled p (h.spelled p (hversion ▸ hp)), fun t' ht' c hc => ?_⟩,
    fun p hp => hspelled p (h.since p hp)⟩
  · rcases htables p.1 t' ht' with ⟨t, ht, hwidens⟩ | hdeclared
    · rw [hversion]
      exact (h.columns p hp t ht).imp_left (DeclaredTable.mem_names_of_prefix hwidens.leading)
    · exact .inl (hdeclared.names hp)
  · rcases htables "meta" t' ht' with ⟨t, ht, hwidens⟩ | hdeclared
    · exact DeclaredTable.mem_names_of_prefix hwidens.leading (h.tick t ht c hc)
    · exact hdeclared.tick_names c hc

theorem setUserVersion (h : OpenableSince found f) {newer : ℤ}
    (hallowed : schemaContract.allows (schemaFacts found f) (.setUserVersion newer)) :
    OpenableSince found { f with userVersion := newer } := by
  have hthere : ∀ p t, f.table p.1 = some t → f.HasColumn p → p.2 ∈ t.names := by
    rintro p t ht ⟨t', ht', hc⟩
    rw [ht] at ht'
    cases ht'
    exact hc
  refine ⟨⟨?_, fun p hp t ht => ?_, fun p hp => ?_, h.tick⟩, h.since⟩
  · rcases hallowed with ⟨rfl, -⟩ | ⟨rfl, -⟩
    · exact (by decide : (2 : ℤ) ≤ schemaVersion)
    · exact le_rfl
  · rcases hallowed with ⟨rfl, -, hconflict⟩ | ⟨rfl, hall⟩
    · rcases h.columns p hp t ht with hc | ⟨-, hadded⟩ | ⟨-, hadded⟩
      · exact .inl hc
      · exact .inl (hthere p t ht (hconflict p hadded))
      · exact .inr (.inr ⟨(by decide : (2 : ℤ) < 3), hadded⟩)
    · exact .inl (hthere p t ht (hall p hp))
  -- a file that was below version 2 had no misspelled column of a later version either
  · rcases hallowed with ⟨rfl, hold, -⟩ | ⟨rfl, -⟩
    · rcases hp with ⟨hlt, -⟩ | ⟨-, hmem⟩
      · exact absurd hlt (lt_irrefl 2)
      · have hlt : found < 3 := lt_trans (show found < 2 from hold) (by decide)
        exact h.since p (.inr ⟨hlt, hmem⟩)
    · rcases hp with ⟨hlt, -⟩ | ⟨hlt, -⟩
      · exact absurd hlt (show ¬ (3 : ℤ) < 2 by decide)
      · exact absurd hlt (lt_irrefl 3)

/-- No statement a client may execute makes a file unfit to be opened. -/
theorem execute (h : OpenableSince found f) {st : SchemaStatement}
    (hallowed : schemaContract.allows (schemaFacts found f) st) :
    OpenableSince found (SchemaStatement.execute engine st f).2 := by
  by_cases hst : ∃ newer, st = .setUserVersion newer
  · obtain ⟨newer, rfl⟩ := hst
    exact h.setUserVersion hallowed
  · refine h.grow (SchemaStatement.execute_userVersion st (fun newer hv => hst ⟨newer, hv⟩) f)
      fun name t' ht' => ?_
    have hstep := SchemaStatement.execute_table engine hallowed f name
    rw [ht'] at hstep
    exact hstep.grown

end OpenableSince

/-! ## Who opens a file keeps to the contract -/

section Contracts

variable {K : Set SchemaFact}

theorem invoke_obeys (st : SchemaStatement) (h : schemaContract.allows K st) :
    st.invoke.Obeys schemaContract (fun r K' => K ∪ schemaContract.tells st r ⊆ K') K :=
  Program.Obeys.invoke h fun _ => subset_rfl

/-- After `add_missing`, the column is there. -/
theorem addMissing_obeys {columns : List String} {table column : String} {type : Affinity}
    (hnew : (table, column) ∈ conflictColumns ++ expiryColumns) (htype : type = addedType column)
    (hread : listed table columns ⊆ K) :
    (addMissing columns table column type).Obeys schemaContract
      (fun r K' => r = .ok () → .column table column ∈ K') K := by
  obtain ⟨htable, hcolumn⟩ : caseFold table = table ∧ caseFold column = column :=
    caseFold_added _ hnew
  have hlisted : ∀ {columns}, column ∈ columns → .column table column ∈ listed table columns :=
    fun {columns} hmem => ⟨column, hmem, by rw [htable, hcolumn]⟩
  unfold addMissing
  split_ifs with hmem
  · exact fun _ => hread (hlisted hmem)
  · refine (invoke_obeys (.addColumn table column type) ⟨hnew, htype⟩).conseq fun r K' hK hr => ?_
    subst hr
    exact hK (.inr (hlisted List.mem_cons_self))

theorem addConflictColumns_keepsTo (hold : .old ∈ K) :
    addConflictColumns.KeepsTo schemaContract K := by
  refine .bind_invoke trivial fun columns => ?_
  refine Program.Obeys.bind ((addMissing_obeys (by decide) rfl
    Set.subset_union_right).keeping.conseq fun r K₁ h₁ => ?_)
  cases r with
  | error e => trivial
  | ok u =>
    refine Program.Obeys.bind ((addMissing_obeys (by decide) rfl
      (Set.subset_union_right.trans h₁.2)).keeping.conseq fun r K₂ h₂ => ?_)
    cases r with
    | error e => trivial
    | ok u =>
      have hknown : ∀ p ∈ conflictColumns, .column p.1 p.2 ∈ K₂ := by
        intro p hp
        rcases List.mem_cons.mp hp with rfl | hp
        · exact h₂.2 (h₁.1 rfl)
        · rw [List.mem_singleton.mp hp]
          exact h₂.1 rfl
      have hallowed : schemaContract.allows K₂ (.setUserVersion 2) :=
        Or.inl ⟨rfl, h₂.2 (h₁.2 (.inl hold)), hknown⟩
      exact Program.KeepsTo.invoke hallowed

theorem addExpiryColumn_obeys {table : String} (h : table ∈ expiring) :
    (addExpiryColumn table).Obeys schemaContract
      (fun r K' => r = .ok () → (∅ : Set SchemaFact) ⊆ K') K := by
  refine Program.Obeys.bind ((invoke_obeys (.tableInfo table) trivial).conseq fun r K' hK => ?_)
  cases r with
  | error e => exact fun _ => Set.empty_subset _
  | ok columns =>
    refine (addMissing_obeys ?_ ?_ (Set.subset_union_right.trans hK)).conseq
      fun _ _ _ _ => Set.empty_subset _
    · exact List.mem_append_right _ (List.mem_map.mpr ⟨table, h, rfl⟩)
    · decide

theorem checkQuery_obeys (query : String × List String) :
    (checkQuery query).Obeys schemaContract
      (fun r K' => r = .ok () → listed query.1 query.2 ⊆ K') K := by
  refine Program.Obeys.handle ((invoke_obeys (.prepare query.1 query.2) trivial).conseq
    fun r K' hK => ?_)
  cases r with
  | error e => exact fun hr => (nomatch hr)
  | ok u => exact fun _ => Set.subset_union_right.trans hK

theorem mem_checked {p : String × String} (h : p ∈ checked) :
    ∃ query ∈ queries, p.1 = query.1 ∧ p.2 ∈ query.2 := by
  obtain ⟨query, hquery, hp⟩ := List.mem_flatMap.mp h
  obtain ⟨c, hc, rfl⟩ := List.mem_map.mp hp
  exact ⟨query, hquery, rfl, hc⟩

theorem ensureCurrentSchema_keepsTo : ensureCurrentSchema.KeepsTo schemaContract K := by
  refine .bind_invoke trivial fun currentVersion => ?_
  split
  · trivial
  · refine .bind ?_ fun u => .bind ?_ fun u => ?_
    · split_ifs with hlt
      · exact addConflictColumns_keepsTo (.inr ⟨rfl, hlt⟩)
      · trivial
    · split_ifs
      · exact (Program.Obeys.forEach (fun table h K => addExpiryColumn_obeys h) _).conseq
          fun _ _ _ => trivial
      · trivial
    · refine Program.Obeys.bind ((Program.Obeys.forEach
        (fun query _ K => checkQuery_obeys query) _).conseq fun r K' hK => ?_)
      cases r with
      | error e => trivial
      | ok u =>
        have hknown : ∀ p ∈ checked, .column p.1 p.2 ∈ K' := by
          intro p hp
          obtain ⟨query, hquery, htable, hcolumn⟩ := mem_checked hp
          obtain ⟨hlower, hlowers⟩ := caseFold_queries query hquery
          refine hK rfl query hquery ⟨p.2, hcolumn, ?_⟩
          rw [hlower, hlowers _ hcolumn, htable]
        have hallowed : schemaContract.allows K' (.setUserVersion schemaVersion) :=
          Or.inr ⟨rfl, hknown⟩
        exact Program.KeepsTo.invoke hallowed

theorem initialize_keepsTo : initializeStore.KeepsTo schemaContract K := by
  refine .bind ?_ fun u => .bind ensureCurrentSchema_keepsTo fun u => .invoke ⟨rfl, rfl⟩
  have htable : ∀ entry ∈ schema, ∀ K,
      (SchemaStatement.createTable entry.1 entry.2.1 entry.2.2).invoke.Obeys schemaContract
        (fun r K' => r = .ok () → (∅ : Set SchemaFact) ⊆ K') K :=
    fun entry h K => (invoke_obeys (.createTable entry.1 entry.2.1 entry.2.2) h).conseq
      fun _ _ _ _ => Set.empty_subset _
  exact (Program.Obeys.forEach htable _).conseq fun _ _ _ => trivial

end Contracts

/-! ## Opening a file alone -/

section Alone

/-- Every table of the schema is there. -/
def Complete (f : SqliteFile) : Prop := ∀ entry ∈ schema, ∃ t, f.table entry.1 = some t

theorem Complete.extends (h : Complete f) (hextends : Extends engine P f f') : Complete f' := by
  intro entry hentry
  obtain ⟨t, ht⟩ := h entry hentry
  obtain ⟨t', ht', -⟩ := hextends.columns entry.1 t ht
  exact ⟨t', ht'⟩

theorem Complete.table (h : Complete f) (name : String) (hname : name ∈ schema.map (·.1)) :
    ∃ t, f.table name = some t := by
  obtain ⟨entry, hentry, rfl⟩ := List.mem_map.mp hname
  exact h entry hentry

/-- The current schema. -/
structure Current (f : SqliteFile) : Prop where
  version : f.userVersion = schemaVersion
  complete : Complete f
  columns : ∀ p ∈ checked, f.HasColumn p

/-- What one stage of an opening makes of a file. -/
structure Stage (engine : Engine) (P : String × String → Prop) (f f' : SqliteFile) : Prop where
  complete : Complete f'
  grown : Extends engine P f f'

theorem Stage.refl (h : Complete f) : Stage engine P f f := ⟨h, .refl f⟩

theorem Stage.mono {P' : String × String → Prop} (hP : ∀ p, P p → P' p)
    (h : Stage engine P f f') : Stage engine P' f f' := ⟨h.complete, h.grown.mono hP⟩

theorem Stage.trans {f'' : SqliteFile} (h : Stage engine P f f') (h' : Stage engine P f' f'') :
    Stage engine P f f'' :=
  ⟨h'.complete, h.grown.trans h'.grown⟩

/-- The error of a column that is added although it is there in another spelling. -/
def duplicateColumn (engine : Engine) (p : String × String) : DomainError :=
  .storage (engine.describe (.duplicateColumn p.2))

/-- A stage that fails because of a column that it adds. -/
structure Fails (engine : Engine) (P : String × String → Prop) (f : SqliteFile) (e : DomainError)
    (f' : SqliteFile) : Prop where
  misspelled : ∃ p, P p ∧ f.Misspells p ∧ e = duplicateColumn engine p
  grown : Extends engine P f f'

theorem Fails.mono {P' : String × String → Prop} (hP : ∀ p, P p → P' p) {e : DomainError}
    (h : Fails engine P f e f') : Fails engine P' f e f' := by
  obtain ⟨p, hp, hmisspells, he⟩ := h.misspelled
  exact ⟨⟨p, hP p hp, hmisspells, he⟩, h.grown.mono hP⟩

/-- What one stage has done is no reason why the next one fails. -/
theorem Fails.after {f₁ : SqliteFile} (hcomplete : Complete f) (h₁ : Stage engine P f f₁)
    (hP : ∀ p, P p → p ∈ conflictColumns ++ expiryColumns) {e : DomainError}
    (h : Fails engine P f₁ e f') : Fails engine P f e f' := by
  obtain ⟨p, hp, hmisspells, he⟩ := h.misspelled
  have hknown : ∀ p ∈ conflictColumns ++ expiryColumns, p.1 ∈ schema.map (·.1) := by decide
  obtain ⟨t, ht⟩ := hcomplete.table p.1 (hknown p (hP p hp))
  have hlower : ∀ spelling, P (p.1, spelling) → caseFold spelling = spelling :=
    fun spelling hs => (caseFold_added _ (hP _ hs)).2
  exact ⟨⟨p, hp, h₁.grown.misspells hlower ht hmisspells, he⟩, h₁.grown.trans h.grown⟩

/-- The program goes through a stage that may add columns with `P`, with `Q` in the end. -/
abbrev Migrates (engine : Engine) (P : String × String → Prop) {α : Type}
    (Q : α → SqliteFile → Prop) (p : SchemaProgram α) (f : SqliteFile) : Prop :=
  p.Ends (SchemaStatement.execute engine) (Fails engine P f)
    (fun a f' => Stage engine P f f' ∧ Q a f') f

/-- One stage after another, of which the second may use what the first has left. -/
theorem Migrates.seq {P₁ : String × String → Prop} {α : Type} {Q : SqliteFile → Prop}
    {R : α → SqliteFile → Prop} {p : SchemaProgram Unit} {q : SchemaProgram α}
    (hcomplete : Complete f) (hP : ∀ p, P p → p ∈ conflictColumns ++ expiryColumns)
    (hP₁ : ∀ p, P₁ p → P p) (hp : Migrates engine P₁ (fun _ => Q) p f)
    (hq : ∀ f₁, Stage engine P₁ f f₁ → Q f₁ → Migrates engine P R q f₁) :
    Migrates engine P R (p >>= fun _ => q) f := by
  refine Program.Ends.bind (hp.conseq (fun _ _ h => h.mono hP₁) fun _ _ h => h) ?_
  rintro - f₁ ⟨h₁, hQ⟩
  have hstage : Stage engine P f f₁ := h₁.mono hP₁
  refine (hq f₁ h₁ hQ).conseq (fun e f₂ h => h.after hcomplete hstage hP) ?_
  rintro a f₂ ⟨h₂, hR⟩
  exact ⟨hstage.trans h₂, hR⟩

/-- The spellings of the columns are read. -/
theorem tableColumns_bind {table : String} (hlower : caseFold table = table) {t : FileTable}
    (ht : f.table table = some t) {α : Type} {E : DomainError → SqliteFile → Prop}
    {Q : α → SqliteFile → Prop} {p : List String → SchemaProgram α}
    (h : (p t.spellings).Ends (SchemaStatement.execute engine) E Q f) :
    (tableColumns table >>= p).Ends (SchemaStatement.execute engine) E Q f := by
  have hrun : SchemaStatement.execute engine (.tableInfo table) f = (.ok t.spellings, f) := by
    dsimp only [SchemaStatement.execute]
    rw [hlower, ht]
    rfl
  refine Program.Ends.bind (Program.Ends.invoke
    (Q := fun columns f' => t.spellings = columns ∧ f = f') hrun ⟨rfl, rfl⟩) ?_
  rintro _ _ ⟨rfl, rfl⟩
  exact h

/-- A column is added unless it was read, which fails if it is there in another spelling. -/
theorem addMissing_migrates (hcomplete : Complete f) {columns : List String}
    {table column : String} {type : Affinity} {t : FileTable} (ht : f.table table = some t)
    (hread : column ∈ columns ↔ column ∈ t.spellings)
    (hnew : (table, column) ∈ conflictColumns ++ expiryColumns) :
    Migrates engine (· = (table, column)) (fun _ f' => f'.Spells (table, column))
      (addMissing columns table column type) f := by
  obtain ⟨htable, hcolumn⟩ : caseFold table = table ∧ caseFold column = column :=
    caseFold_added _ hnew
  unfold addMissing
  split_ifs with hmem
  · exact ⟨.refl hcomplete, t, ht, hread.mp hmem⟩
  · have hextends : Extends engine (· = (table, column)) f
        (SchemaStatement.execute engine (.addColumn table column type) f).2 :=
      SchemaStatement.execute_addColumn_extends (by rw [htable]) type f
    cases hadded : t.addColumn ⟨column, type, false, none⟩ with
    | none =>
      have hrun : SchemaStatement.execute engine (.addColumn table column type) f =
          (.error (duplicateColumn engine (table, column)), f) := by
        dsimp only [SchemaStatement.execute]
        rw [htable, ht]
        dsimp only
        rw [hadded]
        rfl
      have hthere : column ∈ t.names := by
        by_contra hnot
        unfold DeclaredTable.addColumn at hadded
        rw [if_neg (by rwa [hcolumn])] at hadded
        cases hadded
      exact .invoke_error hrun
        ⟨⟨_, rfl, ⟨t, ht, hthere, fun hs => hmem (hread.mpr hs)⟩, rfl⟩, .refl f⟩
    | some t' =>
      have hrun : SchemaStatement.execute engine (.addColumn table column type) f =
          (.ok (), f.setTable table t') := by
        dsimp only [SchemaStatement.execute]
        rw [htable, ht]
        dsimp only
        rw [hadded]
      rw [hrun] at hextends
      refine .invoke hrun ⟨⟨hcomplete.extends hextends, hextends⟩, t', Function.update_self .., ?_⟩
      obtain ⟨-, hcolumns, -⟩ := DeclaredTable.addColumn_eq_some hadded
      unfold DeclaredTable.spellings
      rw [hcolumns, List.map_append]
      exact List.mem_append_right _ List.mem_cons_self

/-- After the columns of version 2 were added. -/
theorem addConflictColumns_migrates (hcomplete : Complete f) :
    Migrates engine (· ∈ conflictColumns) (fun _ f' => ∀ p ∈ conflictColumns, f'.Spells p)
      addConflictColumns f := by
  have hlists : ∀ p, p ∈ conflictColumns → p ∈ conflictColumns ++ expiryColumns :=
    fun _ hp => List.mem_append_left _ hp
  have hsingle : ∀ q ∈ conflictColumns, ∀ p, p = q → p ∈ conflictColumns := by
    rintro q hq _ rfl
    exact hq
  obtain ⟨t, ht⟩ := hcomplete.table "utxos" (by decide)
  refine tableColumns_bind (by decide) ht (Migrates.seq hcomplete hlists (hsingle _ (by decide))
    (addMissing_migrates hcomplete ht Iff.rfl (by decide)) fun f₁ h₁ hmessage => ?_)
  obtain ⟨t₁, ht₁, hwidens⟩ := h₁.grown.columns "utxos" t ht
  -- the columns were read before the first one was added
  have hread : "conflict_recorded_at" ∈ t.spellings ↔ "conflict_recorded_at" ∈ t₁.spellings := by
    refine ⟨DeclaredTable.mem_spellings_of_prefix hwidens.leading,
      fun hc => (hwidens.mem_spellings hc).resolve_right ?_⟩
    decide
  refine Migrates.seq h₁.complete hlists (hsingle _ (by decide))
    (addMissing_migrates h₁.complete ht₁ hread (by decide)) fun f₂ h₂ hrecorded => ?_
  have hall : ∀ p ∈ conflictColumns, f₂.Spells p := by
    intro p hp
    rcases List.mem_cons.mp hp with rfl | hp
    · exact h₂.grown.spells hmessage
    · rw [List.mem_singleton.mp hp]
      exact hrecorded
  have hrun : SchemaStatement.execute engine (.setUserVersion 2) f₂ =
      (.ok (), { f₂ with userVersion := 2 }) := rfl
  have hgrown : Extends engine (· ∈ conflictColumns) f₂ { f₂ with userVersion := 2 } :=
    .setUserVersion 2 f₂
  exact Program.Ends.invoke hrun ⟨⟨h₂.complete, hgrown⟩, hall⟩

theorem addExpiryColumn_migrates (hcomplete : Complete f) {table : String}
    (h : table ∈ expiring) :
    Migrates engine (· = (table, "expires_at")) (fun _ f' => f'.Spells (table, "expires_at"))
      (addExpiryColumn table) f := by
  have hknown : ∀ table ∈ expiring, table ∈ schema.map (·.1) := by decide
  obtain ⟨t, ht⟩ := hcomplete.table table (hknown table h)
  have hmem : (table, "expires_at") ∈ conflictColumns ++ expiryColumns :=
    List.mem_append_right _ (List.mem_map.mpr ⟨table, h, rfl⟩)
  exact tableColumns_bind (caseFold_added _ hmem).1 ht
    (addMissing_migrates hcomplete ht Iff.rfl hmem)

theorem addExpiryColumns_migrate (hcomplete : Complete f) :
    Migrates engine (· ∈ expiryColumns) (fun _ f' => ∀ p ∈ expiryColumns, f'.Spells p)
      (Program.forEach addExpiryColumn expiring) f := by
  refine (Program.Ends.forEach_each (I := fun f' => Stage engine (· ∈ expiryColumns) f f')
    (D := fun table f' => f'.Spells (table, "expires_at")) (fun table htable f₁ h₁ => ?_)
    (.refl hcomplete)).conseq (fun _ _ h => h) ?_
  · have hsingle : ∀ p, p = (table, "expires_at") → p ∈ expiryColumns := by
      rintro _ rfl
      exact List.mem_map.mpr ⟨table, htable, rfl⟩
    refine (addExpiryColumn_migrates h₁.complete htable).conseq (fun e f₂ h =>
      (h.mono hsingle).after hcomplete h₁ fun _ hp => List.mem_append_right _ hp) ?_
    rintro - f₂ ⟨hstage, hcolumn⟩
    exact ⟨h₁.trans (hstage.mono hsingle), hcolumn, fun other hother => hstage.grown.spells hother⟩
  · rintro - f' ⟨hstage, hall, -⟩
    refine ⟨hstage, fun p hp => ?_⟩
    obtain ⟨table, htable, rfl⟩ := List.mem_map.mp hp
    exact hall table htable

/-- After the columns were added that the version does not have. -/
theorem migrations_migrate (hcomplete : Complete f) :
    Migrates engine (IsAdded f.userVersion) (fun _ f' => ∀ p, IsAdded f.userVersion p → f'.Spells p)
      (do
        (if f.userVersion < 2 then addConflictColumns else pure ())
        (if f.userVersion < 3 then Program.forEach addExpiryColumn expiring else pure ())) f := by
  have hfirst : Migrates engine (fun p => f.userVersion < 2 ∧ p ∈ conflictColumns)
      (fun _ f' => f.userVersion < 2 → ∀ p ∈ conflictColumns, f'.Spells p)
      (if f.userVersion < 2 then addConflictColumns else pure ()) f := by
    split_ifs with hold
    · refine (addConflictColumns_migrates hcomplete).conseq
        (fun _ _ h => h.mono fun p hp => ⟨hold, hp⟩) ?_
      rintro - f' ⟨hstage, hall⟩
      exact ⟨hstage.mono fun p hp => ⟨hold, hp⟩, fun _ => hall⟩
    · exact ⟨.refl hcomplete, fun h => (hold h).elim⟩
  refine Migrates.seq hcomplete (fun _ => IsAdded.mem) (fun _ => .inl) hfirst
    fun f₁ h₁ hconflict => ?_
  split_ifs with hold
  · refine (addExpiryColumns_migrate h₁.complete).conseq
      (fun _ _ h => h.mono fun p hp => .inr ⟨hold, hp⟩) ?_
    rintro - f₂ ⟨h₂, hexpiry⟩
    refine ⟨h₂.mono fun p hp => .inr ⟨hold, hp⟩, ?_⟩
    rintro p (⟨hlt, hp⟩ | ⟨-, hp⟩)
    · exact h₂.grown.spells (hconflict hlt p hp)
    · exact hexpiry p hp
  · refine ⟨.refl h₁.complete, ?_⟩
    rintro p (⟨hlt, hp⟩ | ⟨hlt, -⟩)
    · exact hconflict hlt p hp
    · exact (hold hlt).elim

/-- Every table is one that was there, or was declared. -/
def Created (f f' : SqliteFile) : Prop :=
  ∀ name t', f'.table name = some t' →
    f.table name = some t' ∨ f.table name = none ∧ Declared name t'

theorem created_createTable {f₁ : SqliteFile} (h : Created f f₁)
    {entry : String × List FileColumn × List String} (hentry : entry ∈ schema)
    (hnone : f₁.table entry.1 = none) (hback : ∀ name t, f.table name = some t →
      ∃ t', f₁.table name = some t') :
    Created f (f₁.setTable entry.1 (declared entry.2.1 entry.2.2)) := by
  intro name t' ht'
  rw [table_setTable, Function.update_apply] at ht'
  split_ifs at ht' with hname
  · cases ht'
    subst hname
    refine .inr ⟨?_, entry.2.1, entry.2.2, hentry, rfl⟩
    cases ht : f.table entry.1 with
    | none => rfl
    | some t =>
      obtain ⟨u, hu⟩ := hback _ t ht
      rw [hnone] at hu
      cases hu
  · exact h name t' ht'

/-- After the tables were created that were missing. -/
theorem createTables_succeed (f : SqliteFile) :
    (Program.forEach (fun table =>
        (SchemaStatement.createTable table.1 table.2.1 table.2.2).invoke) schema).Ends
      (SchemaStatement.execute engine) (fun _ _ => False)
      (fun _ f' => Stage engine (fun _ => False) f f' ∧ Created f f' ∧
        f'.userVersion = f.userVersion) f := by
  refine (Program.Ends.forEach_each (I := fun f' => Extends engine (fun _ => False) f f' ∧
      Created f f' ∧ f'.userVersion = f.userVersion)
    (D := fun entry f' => ∃ t, f'.table entry.1 = some t) (fun entry hentry f₁ hI => ?_)
    ⟨.refl f, fun _ _ => .inl, rfl⟩).conseq (fun _ _ h => h) ?_
  · obtain ⟨hgrown₁, hcreated₁, hversion₁⟩ := hI
    have hgrown : Extends engine (fun _ => False) f₁ (SchemaStatement.execute engine
        (.createTable entry.1 entry.2.1 entry.2.2) f₁).2 :=
      SchemaStatement.execute_createTable_extends ..
    have hrun : ∃ f₂, SchemaStatement.execute engine
        (.createTable entry.1 entry.2.1 entry.2.2) f₁ = (.ok (), f₂) ∧
        (∃ t, f₂.table entry.1 = some t) ∧ Created f f₂ ∧ f₂.userVersion = f₁.userVersion := by
      dsimp only [SchemaStatement.execute]
      rw [(caseFold_schema entry hentry).1]
      cases ht : f₁.table entry.1 with
      | some t => exact ⟨f₁, rfl, ⟨t, ht⟩, hcreated₁, rfl⟩
      | none =>
        refine ⟨_, rfl, ⟨_, Function.update_self ..⟩, ?_, rfl⟩
        refine created_createTable hcreated₁ hentry ht fun name t ht => ?_
        obtain ⟨t', ht', -⟩ := hgrown₁.columns name t ht
        exact ⟨t', ht'⟩
    obtain ⟨f₂, hrun, hthere, hcreated, hversion⟩ := hrun
    rw [hrun] at hgrown
    refine Program.Ends.invoke hrun ⟨⟨hgrown₁.trans hgrown, hcreated,
      hversion.trans hversion₁⟩, hthere, fun other hother => ?_⟩
    obtain ⟨t, ht⟩ := hother
    obtain ⟨t', ht', -⟩ := hgrown.columns other.1 t ht
    exact ⟨t', ht'⟩
  · rintro - f' ⟨⟨hgrown, hcreated, hversion⟩, hall, -⟩
    exact ⟨⟨hall, hgrown⟩, hcreated, hversion⟩

/-- The error of a query for a column that is missing. -/
def missingColumn (engine : Engine) (p : String × String) : DomainError :=
  .storage ("unsupported sqlite schema in table '" ++ p.1 ++ "': " ++
    engine.describe (.noSuchColumn p.1 p.2))

/-- Why a file cannot be opened, and what the error says. -/
inductive Unsupported (engine : Engine) (f : SqliteFile) : DomainError → Prop where
  | newer : schemaVersion < f.userVersion →
      Unsupported engine f
        (.storage ("unsupported sqlite schema version: " ++ toString f.userVersion))
  | spelling {p : String × String} : IsAdded f.userVersion p → f.Misspells p →
      Unsupported engine f (duplicateColumn engine p)
  | column {t : FileTable} {p : String × String} : p ∈ checked → f.table p.1 = some t →
      p.2 ∉ t.names → ¬ IsAdded f.userVersion p → Unsupported engine f (missingColumn engine p)
  | tick {t : FileTable} {c : String} : c ∈ firstTick.map (·.1) → f.table "meta" = some t →
      c ∉ t.names → Unsupported engine f (.storage (engine.describe (.noSuchColumn "meta" c)))

theorem Unsupported.not_openable {e : DomainError} (h : Unsupported engine f e) :
    ¬ Openable f := by
  intro hopen
  cases h with
  | newer hlt => exact not_lt.mpr hopen.version hlt
  | spelling hadded hmisspells => exact hopen.spelled _ hadded hmisspells
  | column hp ht hmissing hnot => exact (hopen.columns _ hp _ ht).elim hmissing hnot
  | tick hc ht hmissing => exact hmissing (hopen.tick _ ht _ hc)

theorem find_missing {columns names : List String} {c : String}
    (h : columns.find? (· ∉ names) = some c) : c ∈ columns ∧ c ∉ names :=
  ⟨List.mem_of_find?_eq_some h, by simpa using List.find?_some h⟩

theorem no_missing {columns names : List String} (h : columns.find? (· ∉ names) = none) :
    ∀ c ∈ columns, c ∈ names := fun c hc => by simpa using List.find?_eq_none.mp h c hc

theorem checkQuery_ends {query : String × List String} (hquery : query ∈ queries) {t : FileTable}
    (ht : f.table query.1 = some t) :
    (checkQuery query).Ends (SchemaStatement.execute engine)
      (fun e f' => f = f' ∧ ∃ c ∈ query.2, c ∉ t.names ∧ e = missingColumn engine (query.1, c))
      (fun _ f' => f = f' ∧ ∀ c ∈ query.2, c ∈ t.names) f := by
  obtain ⟨hlower, hlowers⟩ := caseFold_queries query hquery
  have hnames : query.2.find? (caseFold · ∉ t.names) = query.2.find? (· ∉ t.names) :=
    List.find?_congr fun c hc => by rw [hlowers c hc]
  refine Program.Ends.handle ?_
  cases hfound : query.2.find? (· ∉ t.names) with
  | none =>
    have hrun : SchemaStatement.execute engine (.prepare query.1 query.2) f = (.ok (), f) := by
      dsimp only [SchemaStatement.execute]
      rw [hlower, ht]
      dsimp only
      rw [hnames, hfound]
    exact Program.Ends.invoke hrun ⟨rfl, no_missing hfound⟩
  | some c =>
    have hrun : SchemaStatement.execute engine (.prepare query.1 query.2) f =
        (.error (.storage (engine.describe (.noSuchColumn query.1 c))), f) := by
      dsimp only [SchemaStatement.execute]
      rw [hlower, ht]
      dsimp only
      rw [hnames, hfound]
    obtain ⟨hc, hmissing⟩ := find_missing hfound
    exact Program.Ends.invoke_error hrun (.throw ⟨rfl, c, hc, hmissing, rfl⟩)

/-- Either every column is there that is checked, or the error names one that is not. -/
theorem checkQueries_ends (hcomplete : Complete f) :
    (Program.forEach checkQuery queries).Ends (SchemaStatement.execute engine)
      (fun e f' => f = f' ∧ ∃ p ∈ checked, ∃ t, f.table p.1 = some t ∧ p.2 ∉ t.names ∧
        e = missingColumn engine p)
      (fun _ f' => f = f' ∧ ∀ p ∈ checked, f.HasColumn p) f := by
  have hknown : ∀ query ∈ queries, query.1 ∈ schema.map (·.1) := by decide
  refine (Program.Ends.forEach_each (I := fun f' => f = f')
    (D := fun query _ => ∀ c ∈ query.2, f.HasColumn (query.1, c))
    (fun query hquery _ hI => ?_) rfl).conseq (fun _ _ h => h) ?_
  · subst hI
    obtain ⟨t, ht⟩ := hcomplete.table query.1 (hknown query hquery)
    refine (checkQuery_ends hquery ht).conseq ?_ ?_
    · rintro e f' ⟨hsame, c, hc, hmissing, he⟩
      exact ⟨hsame, (query.1, c), List.mem_flatMap.mpr ⟨query, hquery,
        List.mem_map.mpr ⟨c, hc, rfl⟩⟩, t, ht, hmissing, he⟩
    · rintro - f' ⟨hsame, hall⟩
      exact ⟨hsame, fun c hc => ⟨t, ht, hall c hc⟩, fun _ h => h⟩
  · rintro - f' ⟨hsame, hall, -⟩
    refine ⟨hsame, fun p hp => ?_⟩
    obtain ⟨query, hquery, hmem⟩ := List.mem_flatMap.mp hp
    obtain ⟨c, hc, rfl⟩ := List.mem_map.mp hmem
    exact hall query hquery c hc

/-- A column that is missing after the migrations was missing before, and is not one that is
added. -/
theorem missing_before {f₁ f₂ : SqliteFile} (hcreated : Created f f₁)
    (h₂ : Extends engine (IsAdded f.userVersion) f₁ f₂) (hcomplete : Complete f₁)
    (hadded : ∀ p, IsAdded f.userVersion p → f₂.HasColumn p)
    {p : String × String} (hp : p ∈ checked) {t₂ : FileTable} (ht₂ : f₂.table p.1 = some t₂)
    (hmissing : p.2 ∉ t₂.names) :
    ∃ t, f.table p.1 = some t ∧ p.2 ∉ t.names ∧ ¬ IsAdded f.userVersion p := by
  obtain ⟨query, hquery, hname, -⟩ := mem_checked hp
  have hknown : ∀ query ∈ queries, query.1 ∈ schema.map (·.1) := by decide
  obtain ⟨t₁, ht₁⟩ := hcomplete.table p.1 (hname ▸ hknown query hquery)
  have hlast : ¬ f₂.HasColumn p := by
    rintro ⟨t', ht', hc'⟩
    rw [ht₂] at ht'
    cases ht'
    exact hmissing hc'
  have hbefore : p.2 ∉ t₁.names := fun hc => hlast (h₂.hasColumn ⟨t₁, ht₁, hc⟩)
  rcases hcreated p.1 t₁ ht₁ with ht | ⟨-, hdeclared⟩
  · exact ⟨t₁, ht, hbefore, fun hp => hlast (hadded p hp)⟩
  · exact (hbefore (hdeclared.names hp)).elim

theorem misspelled_before {f₁ : SqliteFile} (hcreated : Created f f₁) {p : String × String}
    (hp : f₁.Misspells p) : f.Misspells p := by
  obtain ⟨t, ht, hname, hspelling⟩ := hp
  rcases hcreated p.1 t ht with ht | ⟨-, hdeclared⟩
  · exact ⟨t, ht, hname, hspelling⟩
  · exact (hspelling (hdeclared.spellings hname)).elim

theorem ensureCurrentSchema_ends {f₁ : SqliteFile} (hversion : f₁.userVersion = f.userVersion)
    (hcreated : Created f f₁) (h₁ : Stage engine (fun _ => False) f f₁) :
    ensureCurrentSchema.Ends (SchemaStatement.execute engine)
      (fun e f' => Unsupported engine f e ∧ Extends engine (IsAdded f.userVersion) f f')
      (fun _ f' => f.userVersion ≤ schemaVersion ∧ Current f' ∧
        Extends engine (IsAdded f.userVersion) f f' ∧
        (∀ p, IsAdded f.userVersion p → f'.Spells p) ∧
        ∀ p, f₁.HasColumn p → f'.HasColumn p) f₁ := by
  have hgrown₁ : Extends engine (IsAdded f.userVersion) f f₁ := h₁.grown.mono fun _ hp => hp.elim
  have hread : SchemaStatement.execute engine .userVersion f₁ = (.ok f₁.userVersion, f₁) := rfl
  refine Program.Ends.bind (Program.Ends.invoke
    (Q := fun version f' => f₁.userVersion = version ∧ f₁ = f') hread ⟨rfl, rfl⟩) ?_
  rintro _ _ ⟨rfl, rfl⟩
  split
  · rename_i hlt
    rw [hversion] at hlt ⊢
    exact ⟨.newer hlt, hgrown₁⟩
  · rename_i hle
    rw [← bind_assoc]
    refine ((migrations_migrate h₁.complete).conseq ?_ fun _ _ h => h).bind ?_
    · intro e f₂ hfails
      rw [hversion] at hfails
      obtain ⟨p, hp, hmisspells, rfl⟩ := hfails.misspelled
      exact ⟨.spelling hp (misspelled_before hcreated hmisspells), hgrown₁.trans hfails.grown⟩
    rintro - f₂ ⟨h₂, hadded⟩
    rw [hversion] at h₂ hadded
    have hgrown₂ : Extends engine (IsAdded f.userVersion) f f₂ := hgrown₁.trans h₂.grown
    refine ((checkQueries_ends h₂.complete).conseq ?_ fun _ _ h => h).bind ?_
    · rintro _ _ ⟨rfl, p, hp, t₂, ht₂, hmissing, rfl⟩
      have hcolumns : ∀ p, IsAdded f.userVersion p → f₂.HasColumn p :=
        fun p hp => (hadded p hp).hasColumn (caseFold_isAdded hp)
      obtain ⟨t, ht, hbefore, hnot⟩ :=
        missing_before hcreated h₂.grown h₁.complete hcolumns hp ht₂ hmissing
      exact ⟨.column hp ht hbefore hnot, hgrown₂⟩
    · rintro - _ ⟨rfl, hall⟩
      have hrun : SchemaStatement.execute engine (.setUserVersion schemaVersion) f₂ =
          (.ok (), { f₂ with userVersion := schemaVersion }) := rfl
      exact Program.Ends.invoke hrun ⟨hversion ▸ not_lt.mp hle, ⟨rfl, h₂.complete, hall⟩,
        ⟨hgrown₂.columns, hgrown₂.content, hgrown₂.tick⟩, hadded,
        fun p hp => h₂.grown.hasColumn hp⟩

/-- What opening a file alone ends with. -/
theorem initialize_ends (f : SqliteFile) :
    initializeStore.Ends (SchemaStatement.execute engine)
      (fun e f' => Unsupported engine f e ∧ Extends engine (IsAdded f.userVersion) f f')
      (fun _ f' => Openable f ∧ Current f' ∧ Extends engine (IsAdded f.userVersion) f f') f := by
  refine ((createTables_succeed f).conseq (fun _ _ h => h.elim) fun _ _ h => h).bind ?_
  rintro - f₁ ⟨h₁, hcreated, hversion⟩
  refine (ensureCurrentSchema_ends hversion hcreated h₁).bind ?_
  rintro - f₂ ⟨hle, hcurrent, h₂, hadded, hkept⟩
  obtain ⟨t₂, ht₂⟩ := hcurrent.complete.table "meta" (by decide)
  have hrun := SchemaStatement.execute_firstTick engine ht₂
  cases hfound : (firstTick.map (·.1)).find? (· ∉ t₂.names) with
  | some c =>
    obtain ⟨hc, hmissing⟩ := find_missing hfound
    rw [hfound] at hrun
    refine Program.Ends.invoke_error hrun ⟨?_, h₂⟩
    -- a table that was created has the columns
    obtain ⟨t₁, ht₁⟩ := h₁.complete.table "meta" (by decide)
    have hbefore : c ∉ t₁.names := by
      intro hold
      obtain ⟨t', ht', hc'⟩ := hkept ("meta", c) ⟨t₁, ht₁, hold⟩
      rw [ht₂] at ht'
      cases ht'
      exact hmissing hc'
    rcases hcreated "meta" t₁ ht₁ with ht | ⟨-, hdeclared⟩
    · exact .tick hc ht hbefore
    · exact (hbefore (hdeclared.tick_names c hc)).elim
  | none =>
    rw [hfound] at hrun
    have hticked : Extends engine (IsAdded f.userVersion) f₂
        (SchemaStatement.execute engine (.insertOrIgnore "meta" firstTick) f₂).2 :=
      SchemaStatement.execute_firstTick_extends f₂
    rw [hrun] at hticked
    have hback : ∀ name t t', f.table name = some t → f₂.table name = some t' → ∀ c ∈ t'.names,
        c ∈ t.names ∨ IsAdded f.userVersion (name, c) := by
      intro name t t' ht ht' c hc
      obtain ⟨u, hu, hwidens⟩ := h₂.columns name t ht
      rw [ht'] at hu
      cases hu
      refine (hwidens.mem_names hc).imp_right ?_
      rintro ⟨spelling, -, hP, hfold⟩
      rw [caseFold_isAdded hP] at hfold
      exact hfold ▸ hP
    have hopen : Openable f := by
      refine ⟨hle, fun p hp t ht => ?_, fun p hp => ?_, fun t ht c hc => ?_⟩
      · obtain ⟨u, hu, hc⟩ := hcurrent.columns p hp
        exact hback p.1 t u ht hu p.2 hc
      · exact h₂.not_misspells (caseFold_isAdded hp) (hadded p hp)
      · refine (hback "meta" t t₂ ht ht₂ c (no_missing hfound c hc)).resolve_right ?_
        rintro (⟨-, hc⟩ | ⟨-, hc⟩)
        · simp [conflictColumns] at hc
        · simp [expiryColumns, expiring] at hc
    exact Program.Ends.invoke hrun ⟨hopen, ⟨hcurrent.version, hcurrent.complete.extends hticked,
      fun p hp => hticked.hasColumn (hcurrent.columns p hp)⟩, h₂.trans hticked⟩

end Alone

/-! ## Openings side by side -/

/-- A statement is executed, or fails before or after it takes effect. -/
abbrev SchemaAnswers (engine : Engine) (f : SqliteFile) (st : SchemaStatement) :
    DomainResult st.Out → SqliteFile → Prop :=
  Program.Faulty (SchemaStatement.execute engine) DomainError.IsStorage f st

/-- Any number of openings of one file, while others write rows as `env` says. -/
abbrev Openings (engine : Engine) (env : SqliteFile → SqliteFile → Prop) :
    SqliteFile × List (SchemaProgram Unit) → SqliteFile × List (SchemaProgram Unit) → Prop :=
  Relation.ReflTransGen (Program.Served (SchemaAnswers engine) (· = initializeStore) env)

/-- Rows are written, and the version and the columns stay. -/
structure SameColumns (f f' : SqliteFile) : Prop where
  version : f'.userVersion = f.userVersion
  columns : ∀ name,
    (f'.table name).map DeclaredTable.columns = (f.table name).map DeclaredTable.columns

theorem SameColumns.table (h : SameColumns f f') {name : String} {t' : FileTable}
    (ht' : f'.table name = some t') : ∃ t, f.table name = some t ∧ t'.columns = t.columns := by
  have hcolumns := h.columns name
  rw [ht'] at hcolumns
  obtain ⟨t, ht, hsame⟩ := Option.map_eq_some_iff.mp hcolumns.symm
  exact ⟨t, ht, hsame.symm⟩

theorem SameColumns.hasColumn (h : SameColumns f f') {p : String × String} (hp : f.HasColumn p) :
    f'.HasColumn p := by
  obtain ⟨t, ht, hc⟩ := hp
  have hcolumns := h.columns p.1
  rw [ht] at hcolumns
  obtain ⟨t', ht', hsame⟩ := Option.map_eq_some_iff.mp hcolumns
  refine ⟨t', ht', ?_⟩
  unfold DeclaredTable.names at hc ⊢
  rwa [hsame]

theorem OpenableSince.sameColumns {found : ℤ} (h : OpenableSince found f)
    (hsame : SameColumns f f') : OpenableSince found f' := by
  refine h.grow hsame.version fun name t' ht' => ?_
  obtain ⟨t, ht, hcolumns⟩ := hsame.table ht'
  exact .inl ⟨t, ht, .of_columns hcolumns⟩

/-- What every statement keeps that a client may execute, openings keep. -/
theorem openings_invariant {I : SqliteFile → Prop} {env : SqliteFile → SqliteFile → Prop}
    (hexecute : ∀ f₁ st, I f₁ → schemaContract.allows (schemaFacts f.userVersion f₁) st →
      I (SchemaStatement.execute engine st f₁).2)
    (henv : ∀ f₁ f₂, I f₁ → env f₁ f₂ → I f₂ ∧ SameColumns f₁ f₂)
    {y : SqliteFile × List (SchemaProgram Unit)} (h : Openings engine env (f, []) y)
    (hI : I f) : I y.1 := by
  have hcall : ∀ (f₁ : SqliteFile) (st : SchemaStatement) (r : DomainResult st.Out)
      (f₂ : SqliteFile), (I f₁ ∧ (f₁.userVersion < 2 → f.userVersion < 2)) →
      schemaContract.allows (schemaFacts f.userVersion f₁) st → SchemaAnswers engine f₁ st r f₂ →
        (I f₂ ∧ (f₂.userVersion < 2 → f.userVersion < 2)) ∧
          schemaFacts f.userVersion f₁ ∪ schemaContract.tells st r ⊆
            schemaFacts f.userVersion f₂ := by
    intro f₁ st r f₂ ⟨hI, hold⟩ hallowed hanswer
    have hnext : I (SchemaStatement.execute engine st f₁).2 ∧
        ((SchemaStatement.execute engine st f₁).2.userVersion < 2 → f.userVersion < 2) :=
      ⟨hexecute f₁ st hI hallowed, fun hlt => hold (SchemaStatement.execute_old hallowed hlt)⟩
    have htells : schemaFacts f.userVersion f₁ ∪
        schemaContract.tells st (SchemaStatement.execute engine st f₁).1 ⊆
          schemaFacts f.userVersion (SchemaStatement.execute engine st f₁).2 :=
      SchemaStatement.execute_tells hallowed hold
    have herror : ∀ e : DomainError, schemaContract.tells st (.error e) = ∅ := by
      intro e
      cases st <;> rfl
    cases hanswer with
    | answered => exact ⟨hnext, htells⟩
    | refused e =>
      rw [herror, Set.union_empty]
      exact ⟨⟨hI, hold⟩, subset_rfl⟩
    | lost e =>
      rw [herror, Set.union_empty]
      exact ⟨hnext, Set.subset_union_left.trans htells⟩
  have hwrites : ∀ f₁ f₂, (I f₁ ∧ (f₁.userVersion < 2 → f.userVersion < 2)) → env f₁ f₂ →
      (I f₂ ∧ (f₂.userVersion < 2 → f.userVersion < 2)) ∧
        schemaFacts f.userVersion f₁ ⊆ schemaFacts f.userVersion f₂ := by
    rintro f₁ f₂ ⟨hI, hold⟩ hwritten
    obtain ⟨hI₂, hsame⟩ := henv f₁ f₂ hI hwritten
    refine ⟨⟨hI₂, fun hlt => hold (hsame.version ▸ hlt)⟩, fun fact hfact => ?_⟩
    cases fact with
    | column table column => exact hsame.hasColumn hfact
    | old => exact hfact
  have hclient : ∀ p, p = initializeStore → p.KeepsTo schemaContract ∅ := by
    rintro _ rfl
    exact initialize_keepsTo
  exact (Program.answered_of_served hcall hwrites hclient h ⟨hI, id⟩
    (List.forall_mem_nil _)).2.1.1

/-- A part of one opening. -/
theorem openings_cut {env : SqliteFile → SqliteFile → Prop}
    (h : Program.Cut (SchemaStatement.execute engine) initializeStore f f') :
    Openings engine env (f, []) (f', []) := by
  have hanswer : ∀ f st, SchemaAnswers engine f st (SchemaStatement.execute engine st f).1
      (SchemaStatement.execute engine st f).2 := fun _ _ => .answered
  refine Program.served_cut hanswer ?_ h
  rfl

/-- A file that can be opened can still be opened after any part of any number of openings. -/
theorem openings_openable {env : SqliteFile → SqliteFile → Prop}
    (henv : ∀ f f', env f f' → SameColumns f f') {y : SqliteFile × List (SchemaProgram Unit)}
    (hrun : Openings engine env (f, []) y) (h : Openable f) : Openable y.1 := by
  refine (openings_invariant (I := OpenableSince f.userVersion)
    (fun f₁ st h hallowed => h.execute hallowed) (fun f₁ f₂ h hwritten => ?_) hrun h.now).toOpenable
  have hsame := henv f₁ f₂ hwritten
  exact ⟨h.sameColumns hsame, hsame⟩

/-- Opening such a file alone succeeds. -/
theorem Openable.opens (h : Openable f) (engine : Engine) :
    ∃ f', Program.run (SchemaStatement.execute engine) initializeStore f = (.ok (), f') ∧
      Current f' := by
  obtain ⟨⟨r, f'⟩, hend⟩ :
      ∃ x, Program.run (SchemaStatement.execute engine) initializeStore f = x := ⟨_, rfl⟩
  cases r with
  | error e => exact (((initialize_ends f).error hend).1.not_openable h).elim
  | ok u => exact ⟨f', hend, ((initialize_ends f).result hend).2.1⟩

/-- Opening a file alone: it succeeds exactly if the file can be opened, the error says what is
wrong, and either way everything reads as before. -/
theorem open_exact (engine : Engine) (f : SqliteFile) :
    ∃ f', Extends engine (IsAdded f.userVersion) f f' ∧
      ((Openable f ∧ Current f' ∧
        Program.run (SchemaStatement.execute engine) initializeStore f = (.ok (), f')) ∨
      (¬ Openable f ∧ ∃ e, Unsupported engine f e ∧
        Program.run (SchemaStatement.execute engine) initializeStore f = (.error e, f'))) := by
  obtain ⟨⟨r, f'⟩, hend⟩ :
      ∃ x, Program.run (SchemaStatement.execute engine) initializeStore f = x := ⟨_, rfl⟩
  cases r with
  | error e =>
    obtain ⟨hunsupported, hgrown⟩ := (initialize_ends f).error hend
    exact ⟨f', hgrown, .inr ⟨hunsupported.not_openable, e, hunsupported, hend⟩⟩
  | ok u =>
    obtain ⟨hopen, hcurrent, hgrown⟩ := (initialize_ends f).result hend
    exact ⟨f', hgrown, .inl ⟨hopen, hcurrent, hend⟩⟩

namespace Sample

/-- A file with a column that differs from one of version 3 by the case of its letters. -/
def shouting (version : ℤ) : SqliteFile where
  userVersion := version
  table
    | "operations" => some {
        columns := [nullable "operation_id" .text, required "phase" .text,
          required "updated_at" .integer, nullable "EXPIRES_AT" .integer]
        key := ["operation_id"]
        rows := [] }
    | _ => none

example : ¬ Openable (shouting 2) ∧ Openable (shouting 3) := by
  decide +kernel

end Sample

/-- Whatever part of however many openings is executed in whatever order: tables keep their columns,
everything reads as before, and all that is new are tables, the columns of the migrations and first
ticks. -/
theorem openings_keep {y : SqliteFile × List (SchemaProgram Unit)}
    (hrun : Openings engine (fun _ _ => False) (f, []) y) :
    Extends engine (· ∈ conflictColumns ++ expiryColumns) f y.1 := by
  refine openings_invariant (fun f₁ st h hallowed => ?_) (fun _ _ _ h => h.elim) hrun (.refl f)
  exact h.trans (SchemaStatement.execute_extends (SchemaStatement.allows_adds hallowed) f₁)

namespace Sample

def describe : Refusal → String
  | .noSuchTable table => "no such table: " ++ table
  | .noSuchColumn _ column => "no such column: " ++ column
  | .duplicateColumn column => "duplicate column name: " ++ column
  | .foreignKeyMismatch child parent =>
    "foreign key mismatch - \"" ++ child ++ "\" referencing \"" ++ parent ++ "\""
  | .notNull table column => "NOT NULL constraint failed: " ++ table ++ "." ++ column
  | .foreignKey => "FOREIGN KEY constraint failed"

/-- Numbers become text in a column of text; no other value is converted here. -/
def convert : Affinity → SqlValue → SqlValue
  | .text, .integer n => .text (toString n.val)
  | _, v => v

def sqlite : Engine where
  describe
  convert
  convert_stored {type v} h := by cases type <;> cases v <;> first | rfl | exact h.elim
  convert_tick type := by cases type <;> rfl

def row (values : List (String × Option SqlValue)) (name : String) : Option SqlValue :=
  (values.lookup name).join

def zero : SqlInteger := .ofNat 0 (by decide)

def sats : SqlInteger := .ofNat 10000 (by decide)

/-- The columns of an output in version 1, with two that are gone. -/
def legacyColumns : List FileColumn := [nullable "outpoint" .text, required "txid" .text,
  required "vout" .integer, required "account_id" .text, required "scope_id" .text,
  required "value_sats" .integer, required "onchain_state" .text, required "asset_state" .text,
  required "availability" .text, required "role" .text, nullable "binding_operation_id" .text,
  nullable "binding_phase" .text, required "rgb_amount" .integer]

/-- A database of version 1. -/
def legacy : SqliteFile where
  userVersion := 1
  table
    | "meta" => some {
        columns := [nullable "key" .text, required "value" .text]
        key := ["key"]
        rows := [row [("key", some (.text "tick")), ("value", some (.text "7"))]] }
    | "accounts" => some {
        columns := [nullable "account_id" .text, required "name" .text,
          required "capabilities" .text]
        key := ["account_id"]
        rows := [row [("account_id", some (.text "rgb")), ("name", some (.text "L2")),
          ("capabilities", some (.text "btc_receive,rgb_receive,reserve_support"))]] }
    | "utxos" => some {
        columns := legacyColumns
        key := ["outpoint"]
        rows := [row [("outpoint", some (.text "tx1:0")), ("txid", some (.text "tx1")),
          ("vout", some (.integer zero)), ("account_id", some (.text "rgb")),
          ("scope_id", some (.text "rgb_scope")),
          ("value_sats", some (.integer sats)),
          ("onchain_state", some (.text "confirmed")), ("asset_state", some (.text "legacy")),
          ("availability", some (.text "selectable")), ("role", some (.text "general")),
          ("rgb_amount", some (.integer zero))]] }
    | _ => none

/-- The file after an opening that stopped between the two columns of version 2. -/
@[irreducible]
def interrupted : SqliteFile :=
  Program.stopped (SchemaStatement.execute sqlite) 12 initializeStore legacy

theorem interrupted_run {env : SqliteFile → SqliteFile → Prop} :
    Openings sqlite env (legacy, []) (interrupted, []) := by
  refine openings_cut ?_
  unfold interrupted
  exact Program.cut_stopped ..

end Sample

theorem openings_keep_sample :
    ((Sample.interrupted.table "utxos").any fun t =>
      "conflict_message" ∈ t.names ∧ "conflict_recorded_at" ∉ t.names) = true ∧
        Extends Sample.sqlite (· ∈ conflictColumns ++ expiryColumns) Sample.legacy
          Sample.interrupted := by
  refine ⟨?_, openings_keep Sample.interrupted_run⟩
  unfold Sample.interrupted
  decide +kernel

end SqliteStateStore

end Txoscope
