import Txoscope.Sqlite.Writes

/-!
# Rows that an upgraded file takes

Which rows the columns of a file refuse is decided by the file as it was found: neither an opening
nor a row that is written changes it (`openings_write`), so a file of version 1 that had more
required columns is opened, and read, and takes no output.
-/

namespace Txoscope

open SqliteFile SqliteStateStore SqlValue

namespace RowWrite

variable {engine : Engine} {w : RowWrite} {t : FileTable} {f f' : SqliteFile} {db : Database}

/-! ## Openings -/

/-- The tables that the store writes to are declared as it expects them: the columns that are
written are there, or are among those that an opening checks. -/
def Fitted (f : SqliteFile) : Prop :=
  ∀ (w : RowWrite) (t : FileTable), f.table w.table = some t →
    w.Suited t ∧ ∀ c ∈ w.columns, c ∈ t.names ∨ (w.table, c) ∈ checked

theorem Fitted.suited (h : Fitted f) (w : RowWrite) (t : FileTable)
    (ht : f.table w.table = some t) : w.Suited t := (h w t ht).1

/-- The columns take the row, if there is a table. -/
def Takes (f : SqliteFile) (w : RowWrite) : Prop := ∀ t, f.table w.table = some t → w.Fits t

theorem schema_plain : ∀ entry ∈ schema, (entry.2.1.map (·.spelling)).Nodup ∧
    ∀ c ∈ entry.2.1, c.default = none := by
  decide

/-- The schema has the columns that are written, each with the type of what is written to it, and
refuses null only where something is given. -/
theorem schema_written {columns : List FileColumn} {key : List String}
    (h : (w.table, columns, key) ∈ schema) :
    key.map caseFold = [w.keyColumn] ∧ (∀ c ∈ w.columns, c ∈ columns.map (·.spelling)) ∧
      (∀ c ∈ columns, ∀ v, w.values.lookup c.spelling = some (some v) → c.type.Stores v) ∧
      ∀ c ∈ columns, c.notNull = true → (w.values.lookup c.spelling).join.isSome = true := by
  cases w <;> simp [schema, table] at h <;> obtain ⟨rfl, rfl⟩ := h
  all_goals refine ⟨by dsimp only [keyColumn]; decide, ?_, ?_, ?_⟩
  all_goals simp [required, nullable, values, RowWrite.columns, params, List.lookup_cons]
  -- what is left are the numbers that may be null
  all_goals
    rintro v x hp hq - rfl
    trivial

/-- The tables that the program declares take every row. -/
theorem declared_suited (h : Declared w.table t) :
    w.Suited t ∧ (∀ c ∈ w.columns, c ∈ t.names) ∧ w.Fits t := by
  obtain ⟨columns, key, hmem, rfl⟩ := h
  have hlower : ∀ c ∈ columns, caseFold c.spelling = c.spelling := (caseFold_schema _ hmem).2
  have hnames : (declared columns key).names = columns.map (·.spelling) :=
    List.map_congr_left hlower
  obtain ⟨hdistinct, hdefault⟩ := schema_plain _ hmem
  obtain ⟨hkey, hcolumns, hstores, hgiven⟩ := schema_written hmem
  refine ⟨⟨?_, hkey, fun c hc _ => hdefault c hc, fun c hc => ?_⟩, ?_, fun c hc hnull => .inl ?_⟩
  · rw [hnames]
    exact hdistinct
  · rw [hlower c hc]
    exact hstores c hc
  · rw [hnames]
    exact hcolumns
  · rw [hlower c hc]
    exact hgiven c hc hnull

theorem suited_addColumn {column : String} {t' : FileTable}
    (hmem : (w.table, column) ∈ conflictColumns ++ expiryColumns) (h : w.Suited t)
    (hadded : t.addColumn (nullable column (addedType column)) = some t') :
    w.Suited t' ∧ (w.Fits t' ↔ w.Fits t) := by
  obtain ⟨hnew, hcolumns, -⟩ := DeclaredTable.addColumn_eq_some hadded
  have hnames : t'.names = t.names ++ [caseFold column] := by
    unfold DeclaredTable.names
    rw [hcolumns, List.map_append]
    rfl
  have hlower : caseFold column = column := (caseFold_added _ hmem).2
  have hstores : ∀ v, w.values.lookup column = some (some v) → (addedType column).Stores v := by
    intro v hv
    cases w with
    | account | scope => simp [conflictColumns, expiryColumns, expiring, table] at hmem
    | utxo row =>
      have hcolumn : column = "conflict_message" ∨ column = "conflict_recorded_at" := by
        simpa [conflictColumns, expiryColumns, expiring, table] using hmem
      rcases hcolumn with rfl | rfl
      · exact stores_map_text (Option.some.inj hv)
      · exact stores_map_integer (Option.some.inj hv)
    | lock row | operation row | intent row =>
      have hcolumn : column = "expires_at" := by
        simpa [conflictColumns, expiryColumns, expiring, table] using hmem
      subst hcolumn
      exact stores_map_integer (Option.some.inj hv)
  refine ⟨⟨?_, (DeclaredTable.key_addColumn hadded).trans h.key, fun c hc hname => ?_,
    fun c hc v hv => ?_⟩, ?_⟩
  · rw [hnames, ← List.concat_eq_append]
    exact List.Nodup.concat hnew h.distinct
  · rw [hcolumns, List.mem_append, List.mem_singleton] at hc
    rcases hc with hc | rfl
    · exact h.plain c hc hname
    · rfl
  · rw [hcolumns, List.mem_append, List.mem_singleton] at hc
    rcases hc with hc | rfl
    · exact h.stores c hc v hv
    · exact hstores v (hlower ▸ hv)
  · unfold Fits
    rw [hcolumns]
    refine ⟨fun hfits c hc => hfits c (List.mem_append_left _ hc), fun hfits c hc hnull => ?_⟩
    rw [List.mem_append, List.mem_singleton] at hc
    rcases hc with hc | rfl
    · exact hfits c hc hnull
    · cases hnull

/-- No statement of an opening changes which rows are taken. -/
theorem takes_of_allowed (engine : Engine) {st : SchemaStatement} {K : Set SchemaFact}
    (hallowed : schemaContract.allows K st) (h : Fitted f) :
    Fitted (SchemaStatement.execute engine st f).2 ∧
      ∀ w, Takes (SchemaStatement.execute engine st f).2 w ↔ Takes f w := by
  rw [Fitted, ← forall_and]
  intro w
  have hw := h w
  have hstep := SchemaStatement.execute_table engine hallowed f w.table
  unfold Takes
  generalize f.table w.table = before at hstep hw ⊢
  generalize (SchemaStatement.execute engine st f).2.table w.table = after at hstep ⊢
  cases hstep with
  | same => exact ⟨hw, .rfl⟩
  | created hdeclared =>
    obtain ⟨hsuited, hcolumns, hfits⟩ := declared_suited hdeclared
    refine ⟨fun t ht => ?_, iff_of_true (fun t ht => ?_) fun t ht => nomatch ht⟩
    · cases ht
      exact ⟨hsuited, fun c hc => .inl (hcolumns c hc)⟩
    · cases ht
      exact hfits
  | added hmem hadded =>
    obtain ⟨hsuited, hcolumns⟩ := hw _ rfl
    obtain ⟨hsuited', hfits⟩ := suited_addColumn hmem hsuited hadded
    refine ⟨fun u hu => ?_, ?_⟩
    · cases hu
      refine ⟨hsuited', fun c hc => (hcolumns c hc).imp_left fun hmem => ?_⟩
      exact DeclaredTable.mem_names_of_prefix
        ⟨_, (DeclaredTable.addColumn_eq_some hadded).2.1.symm⟩ hmem
    · simp only [Option.some.injEq, forall_eq']
      exact hfits
  | ticked hmeta => exact (w.table_ne_meta hmeta).elim

theorem Suited.congr {t' : FileTable} (h : w.Suited t) (hcolumns : t'.columns = t.columns)
    (hkey : t'.key = t.key) : w.Suited t' := by
  have hnames : t'.names = t.names := by
    unfold DeclaredTable.names
    rw [hcolumns]
  refine ⟨?_, hkey.trans h.key, ?_, ?_⟩
  · rw [hnames]
    exact h.distinct
  · rw [hcolumns]
    exact h.plain
  · rw [hcolumns]
    exact h.stores

/-- Nor does a row that is written. -/
theorem takes_of_sameShape (hsame : SameShape f f') (h : Fitted f) :
    Fitted f' ∧ ∀ w, Takes f' w ↔ Takes f w := by
  have hfits : ∀ {f f' : SqliteFile}, SameShape f f' → ∀ w, Takes f w → Takes f' w := by
    intro f f' hsame w htakes t' ht'
    obtain ⟨t, ht, hcolumns, -⟩ := hsame.table ht'
    have hrow := htakes t ht
    unfold Fits at hrow ⊢
    rwa [hcolumns]
  refine ⟨fun w t' ht' => ?_, fun w => ⟨hfits hsame.symm w, hfits hsame w⟩⟩
  obtain ⟨t, ht, hcolumns, hkey⟩ := hsame.table ht'
  obtain ⟨hsuited, hchecked⟩ := h w t ht
  refine ⟨hsuited.congr hcolumns hkey, fun c hc => (hchecked c hc).imp_left fun hmem => ?_⟩
  unfold DeclaredTable.names at hmem ⊢
  rwa [hcolumns]

/-- Other connections write rows. -/
def Written (engine : Engine) (f f' : SqliteFile) : Prop :=
  ∃ w : RowWrite, f' = (w.execute engine f).2

/-- A row is replaced that the file takes, and that refers to what is there. -/
def Replaced (f : SqliteFile) (db db' : Database) : Prop :=
  ∃ w, Takes f w ∧ Referred db w ∧ db' = w.onDatabase db

/-- What is written is replaced in the database, or nothing is. -/
theorem execute_replaces (w : RowWrite) {f₁ : SqliteFile} {db₁ : Database}
    (hfitted : Fitted f₁) (htakes : ∀ w, Takes f₁ w ↔ Takes f w) (hdb : Denotes engine f₁ db₁) :
    ∃ db₂, Relation.ReflTransGen (Replaced f) db₁ db₂ ∧
      Denotes engine (w.execute engine f₁).2 db₂ := by
  rcases w.execute_cases hfitted.suited hdb with
    ⟨e, hrun⟩ | ⟨t, ht, hcolumns, hfits, hreferred, hrun⟩
  · rw [hrun]
    exact ⟨db₁, .refl, hdb⟩
  · have htaken : Takes f₁ w := by
      intro u hu
      rw [ht] at hu
      cases hu
      exact hfits
    rw [hrun]
    exact ⟨w.onDatabase db₁, .single ⟨w, (htakes w).mp htaken, hreferred, rfl⟩,
      denotes_store hdb ht (hfitted.suited w t ht) hcolumns⟩

/-- Openings and rows that are written leave the rows that are taken as they were. -/
theorem openings_written {env : SqliteFile → SqliteFile → Prop}
    (henv : ∀ f f', env f f' → Written engine f f') (hfitted : Fitted f)
    (hdb : Denotes engine f db) {y : SqliteFile × List (SchemaProgram Unit)}
    (hrun : Openings engine env (f, []) y) :
    (Fitted y.1 ∧ ∀ w, Takes y.1 w ↔ Takes f w) ∧
      ∃ db', Relation.ReflTransGen (Replaced f) db db' ∧ Denotes engine y.1 db' := by
  refine openings_invariant (I := fun f₁ => (Fitted f₁ ∧ ∀ w, Takes f₁ w ↔ Takes f w) ∧
    ∃ db', Relation.ReflTransGen (Replaced f) db db' ∧ Denotes engine f₁ db')
    (fun f₁ st hI hallowed => ?_) (fun f₁ f₂ hI hwritten => ?_) hrun
    ⟨⟨hfitted, fun _ => .rfl⟩, db, .refl, hdb⟩
  · obtain ⟨⟨hfitted₁, htakes⟩, db', hmoves, hdb'⟩ := hI
    obtain ⟨hfitted₂, htakes'⟩ := takes_of_allowed engine hallowed hfitted₁
    exact ⟨⟨hfitted₂, fun w => (htakes' w).trans (htakes w)⟩, db', hmoves,
      SchemaStatement.execute_denotes hallowed hdb'⟩
  · obtain ⟨⟨hfitted₁, htakes⟩, db', hmoves, hdb'⟩ := hI
    obtain ⟨w, rfl⟩ := henv f₁ f₂ hwritten
    have hsame : SameShape f₁ (w.execute engine f₁).2 := w.sameShape_execute f₁
    obtain ⟨hfitted₂, htakes'⟩ := takes_of_sameShape hsame hfitted₁
    obtain ⟨db'', hmove, hdb''⟩ := w.execute_replaces hfitted₁ htakes hdb'
    exact ⟨⟨⟨hfitted₂, fun w => (htakes' w).trans (htakes w)⟩, db'', hmoves.trans hmove, hdb''⟩,
      hsame.sameColumns⟩

theorem table_mem_schema (w : RowWrite) : w.table ∈ schema.map (·.1) := by
  cases w <;> simp [schema, table]

/-- The foreign keys of a complete file make sense. -/
theorem resolved_of_complete (hcomplete : Complete f) (hfitted : Fitted f)
    (ht : f.table w.table = some t) : foreignKeys.findSome? (w.unresolved f t) = none := by
  have hkey : t.key = [w.keyColumn] := (hfitted.suited w t ht).key
  cases w with
  | utxo | lock | operation => simp [foreignKeys, unresolved, table]
  | account row =>
    have hkey' : t.key = ["account_id"] := hkey
    simp [foreignKeys, unresolved, table, hkey']
  | intent row =>
    have hkey' : t.key = ["operation_id"] := hkey
    simp [foreignKeys, unresolved, table, hkey']
  | scope row =>
    obtain ⟨parent, hparent⟩ := hcomplete.table "accounts" (by decide)
    have hparentkey : parent.key = ["account_id"] :=
      (hfitted.suited (.account ⟨"", "", ""⟩) parent hparent).key
    simp [foreignKeys, unresolved, table, hparent, hparentkey]

/-- In a current file: a row is taken if it fits and refers to what is there, and refused
otherwise. -/
theorem execute_current (w : RowWrite) (hcurrent : Current f) (hfitted : Fitted f)
    (hdb : Denotes engine f db) :
    (Takes f w → Referred db w → ∃ f', w.execute engine f = (.ok (), f') ∧
      Denotes engine f' (w.onDatabase db)) ∧
    (¬ Takes f w → ∃ column, w.execute engine f =
      (.error (.storage (engine.describe (.notNull w.table column))), f)) ∧
    (Takes f w → ¬ Referred db w →
      w.execute engine f = (.error (.storage (engine.describe .foreignKey)), f)) := by
  obtain ⟨t, ht⟩ := hcurrent.complete.table w.table w.table_mem_schema
  obtain ⟨hsuited, hchecked⟩ := hfitted w t ht
  have hcolumns : ∀ c ∈ w.columns, c ∈ t.names := by
    intro c hc
    rcases hchecked c hc with hmem | hmem
    · exact hmem
    · obtain ⟨u, hu, hcu⟩ := hcurrent.columns _ hmem
      rw [ht] at hu
      cases hu
      exact hcu
  have htakes : Takes f w ↔ w.Fits t := by
    unfold Takes
    rw [ht]
    simp only [Option.some.injEq, forall_eq']
  rw [htakes]
  obtain ⟨htaken, hrefused, hdangling⟩ := execute_exact hfitted.suited hdb ht hcolumns
    (resolved_of_complete hcurrent.complete hfitted ht)
  refine ⟨fun hfits hreferred => ⟨_, htaken hfits hreferred, ?_⟩, fun hfits => ?_, hdangling⟩
  · exact denotes_store hdb ht hsuited hcolumns
  · obtain ⟨c, -, -, hrun⟩ := hrefused hfits
    exact ⟨c.spelling, hrun⟩

/-- Any part of any number of openings of a file, while others write rows: the database in it is one
that replacements lead to, of rows which the file takes as it was found and which refer to what is
there, and an opening that is left alone leaves a file with that database which takes just these
rows and refuses the others. -/
theorem openings_write (hopen : Openable f) (hfitted : Fitted f) (hdb : Denotes engine f db)
    {y : SqliteFile × List (SchemaProgram Unit)}
    (hrun : Openings engine (Written engine) (f, []) y) :
    ∃ db', Relation.ReflTransGen (Replaced f) db db' ∧ Denotes engine y.1 db' ∧
      ∃ f', Program.run (SchemaStatement.execute engine) initializeStore y.1 = (.ok (), f') ∧
        Denotes engine f' db' ∧ ∀ w : RowWrite,
          (Takes f w → Referred db' w → ∃ f'', w.execute engine f' = (.ok (), f'') ∧
            Denotes engine f'' (w.onDatabase db')) ∧
          (¬ Takes f w → ∃ column, w.execute engine f' =
            (.error (.storage (engine.describe (.notNull w.table column))), f')) ∧
          (Takes f w → ¬ Referred db' w →
            w.execute engine f' = (.error (.storage (engine.describe .foreignKey)), f')) := by
  obtain ⟨⟨hfitted', htakes⟩, db', hmoves, hdb'⟩ :=
    openings_written (fun _ _ h => h) hfitted hdb hrun
  have hopen' : Openable y.1 := by
    refine openings_openable (fun f₁ f₂ hwritten => ?_) hrun hopen
    obtain ⟨w, rfl⟩ := hwritten
    exact (w.sameShape_execute f₁).sameColumns
  obtain ⟨f', hend, hcurrent, hdb''⟩ := hopen'.opens_denote hdb'
  have halone : Openings engine (fun _ _ => False) (y.1, []) (f', []) := openings_alone hend
  obtain ⟨⟨hfitted'', htakes'⟩, -⟩ :=
    openings_written (fun _ _ h => h.elim) hfitted' hdb' halone
  refine ⟨db', hmoves, hdb', f', hend, hdb'', fun w => ?_⟩
  rw [← htakes w, ← htakes' w]
  exact w.execute_current hcurrent hfitted'' hdb''

namespace Sample

/-- An account that is registered again. -/
def renamed : RowWrite := .account ⟨"rgb", "RGB", "btc_receive"⟩

/-- A scope of an account that is not there. -/
def orphan : RowWrite :=
  .scope ⟨"bdk_scope", "bdk", "descriptor", "m/0", "btc_receive", Sample.zero⟩

/-- An output as the code writes it. -/
def discovered : RowWrite :=
  .utxo ⟨"tx2:0", "tx2", Sample.zero, "rgb", "rgb_scope",
    Sample.sats, "confirmed", "selectable", "general", none, none, none, none⟩

theorem legacyColumns_store (row : UtxoRow) : ∀ c ∈ Sample.legacyColumns, ∀ v,
    (RowWrite.utxo row).values.lookup (caseFold c.spelling) = some (some v) →
      c.type.Stores v := by
  have hlower : ∀ c ∈ Sample.legacyColumns, caseFold c.spelling = c.spelling := by decide
  intro c hc
  rw [hlower c hc]
  revert c
  simp [Sample.legacyColumns, required, nullable, values, RowWrite.columns, params,
    List.lookup_cons]

theorem legacy_fitted : Fitted Sample.legacy := by
  intro w t ht
  cases w with
  | account row =>
    cases ht
    have hdeclared : Declared "accounts" (declared [nullable "account_id" .text,
        required "name" .text, required "capabilities" .text] ["account_id"]) :=
      ⟨_, _, by decide, rfl⟩
    obtain ⟨hsuited, hcolumns, -⟩ := declared_suited (w := .account row) hdeclared
    exact ⟨hsuited.congr rfl rfl, fun c hc => .inl (hcolumns c hc)⟩
  | utxo row =>
    cases ht
    refine ⟨⟨by decide, rfl, ?_, legacyColumns_store row⟩, ?_⟩
    · dsimp only [RowWrite.columns]
      decide
    · dsimp only [RowWrite.columns, RowWrite.table]
      decide
  | scope | lock | operation | intent => cases ht

theorem legacy_takes (row : AccountRow) : Takes Sample.legacy (.account row) := by
  intro t ht c hc hnull
  cases ht
  simp only [List.mem_cons, List.not_mem_nil, or_false] at hc
  rcases hc with rfl | rfl | rfl
  all_goals exact .inl rfl

/-- A column that is gone has no value in a row. -/
theorem legacy_refuses (row : UtxoRow) : ¬ Takes Sample.legacy (.utxo row) := by
  intro h
  rcases h _ rfl (required "asset_state" .text) (by decide) rfl with hvalue | hdefault
  · cases hvalue
  · cases hdefault

theorem interrupted_accounts :
    (Sample.interrupted.content "accounts").mapM AccountRow.ofColumns =
      some [⟨"rgb", "L2", "btc_receive,rgb_receive,reserve_support"⟩] := by
  unfold Sample.interrupted
  decide +kernel

end Sample

theorem openings_write_sample :
    ∃ db f, Program.run (SchemaStatement.execute Sample.sqlite) initializeStore
        Sample.interrupted = (.ok (), f) ∧
      Denotes Sample.sqlite f db ∧
      (∃ f', Sample.renamed.execute Sample.sqlite f = (.ok (), f') ∧
        Denotes Sample.sqlite f' (Sample.renamed.onDatabase db)) ∧
      Sample.orphan.execute Sample.sqlite f =
        (.error (.storage "FOREIGN KEY constraint failed"), f) ∧
      ∃ column, Sample.discovered.execute Sample.sqlite f =
        (.error (.storage ("NOT NULL constraint failed: utxos." ++ column)), f) := by
  obtain ⟨db, -, hdb, f, hrun, hdb', hwrites⟩ :=
    openings_write (by decide +kernel) Sample.legacy_fitted Sample.legacy_denotes
      Sample.interrupted_run
  have haccounts : db.accounts.rows = [⟨"rgb", "L2", "btc_receive,rgb_receive,reserve_support"⟩] :=
    Option.some.inj (hdb.accounts.symm.trans Sample.interrupted_accounts)
  have horphan : ¬ Referred db Sample.orphan := by
    unfold Referred Sample.orphan Table.find
    rw [haccounts]
    decide
  refine ⟨db, f, hrun, hdb', (hwrites Sample.renamed).1 (Sample.legacy_takes _) trivial,
    (hwrites Sample.orphan).2.2 (fun t ht => nomatch ht) horphan, ?_⟩
  exact (hwrites Sample.discovered).2.1 (Sample.legacy_refuses _)

end RowWrite

end Txoscope
