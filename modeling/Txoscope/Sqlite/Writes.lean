import Txoscope.Sqlite.Files

/-!
# Rows that are written to a file

`RowWrite` lists the `INSERT OR REPLACE` statements of the store. On a file, such a statement gives
the columns the store knows, and the others get their defaults; it is refused if that leaves a null
where the column refuses one, or if a foreign key of the row is not there. Where it is not refused
the database in the file is the one with the row replaced, and what referred to the intent that was
replaced is deleted.
-/

namespace Txoscope

open SqliteFile SqliteStateStore

/-- The rows that the store inserts or replaces. -/
inductive RowWrite where
  | account (row : AccountRow)
  | scope (row : ScopeRow)
  | utxo (row : UtxoRow)
  | lock (row : LockRow)
  | operation (row : OperationRow)
  | intent (row : IntentRow)

namespace RowWrite

/-! ## Statements -/

def table : RowWrite → String
  | account _ => "accounts"
  | scope _ => "scopes"
  | utxo _ => "utxos"
  | lock _ => "locks"
  | operation _ => "operations"
  | intent _ => "intents"

def keyColumn : RowWrite → String
  | account _ => "account_id"
  | scope _ => "scope_id"
  | utxo _ | lock _ => "outpoint"
  | operation _ | intent _ => "operation_id"

def columns : RowWrite → List String
  | account _ => ["account_id", "name", "capabilities"]
  | scope _ => ["scope_id", "account_id", "descriptor_ref", "derivation_scope", "capabilities",
    "priority"]
  | utxo _ => ["outpoint", "txid", "vout", "account_id", "scope_id", "value_sats", "onchain_state",
    "availability", "role", "binding_operation_id", "binding_phase", "conflict_message",
    "conflict_recorded_at"]
  | lock _ => ["outpoint", "operation_id", "account_id", "scope_id", "purpose", "owner",
    "created_at", "expires_at"]
  | operation _ => ["operation_id", "phase", "updated_at", "expires_at"]
  | intent _ => ["operation_id", "change_scope_id", "status", "recorded_at", "expires_at"]

/-- The parameters of the statement. -/
def params : RowWrite → List (Option SqlValue)
  | account row => [some (.text row.accountId), some (.text row.name),
    some (.text row.capabilities)]
  | scope row => [some (.text row.scopeId), some (.text row.accountId),
    some (.text row.descriptorRef), some (.text row.derivationScope),
    some (.text row.capabilities), some (.integer row.priority)]
  | utxo row => [some (.text row.outpoint), some (.text row.txid), some (.integer row.vout),
    some (.text row.accountId), some (.text row.scopeId), some (.integer row.valueSats),
    some (.text row.onchainState), some (.text row.availability), some (.text row.role),
    row.bindingOperationId.map .text, row.bindingPhase.map .text, row.conflictMessage.map .text,
    row.conflictRecordedAt.map .integer]
  | lock row => [some (.text row.outpoint), some (.text row.operationId),
    some (.text row.accountId), some (.text row.scopeId), some (.text row.purpose),
    some (.text row.owner), some (.integer row.createdAt), row.expiresAt.map .integer]
  | operation row => [some (.text row.operationId), some (.text row.phase),
    some (.integer row.updatedAt), row.expiresAt.map .integer]
  | intent row => [some (.text row.operationId), some (.text row.changeScopeId),
    some (.text row.status), some (.integer row.recordedAt), row.expiresAt.map .integer]

def values (w : RowWrite) : List (String × Option SqlValue) := w.columns.zip w.params

/-- A foreign key that SQLite cannot make sense of: the parent table is not there, or its primary
key is another one. -/
def unresolved (w : RowWrite) (f : SqliteFile) (t : FileTable) (fk : ForeignKey) :
    Option Refusal :=
  if fk.child = w.table then
    match f.table fk.parent with
    | none => some (.noSuchTable fk.parent)
    | some parent =>
      if parent.key = [fk.key] then none else some (.foreignKeyMismatch fk.child fk.parent)
  else if fk.parent = w.table ∧ (f.table fk.child).isSome = true ∧ t.key ≠ [fk.key] then
    some (.foreignKeyMismatch fk.child fk.parent)
  else none

/-- The row refers to one that is not there. -/
def dangles (engine : Engine) (w : RowWrite) (f : SqliteFile) (row : String → Option SqlValue)
    (fk : ForeignKey) : Bool :=
  fk.child = w.table && (row fk.column).any fun v => (f.table fk.parent).any fun parent =>
    !parent.rows.any fun other =>
      parent.value other fk.key = some (engine.compared parent fk.key v)

/-- `ON DELETE CASCADE`, after a row of `t` was deleted whose key is that of `row`. -/
def cascade (engine : Engine) (w : RowWrite) (t : FileTable) (row : String → Option SqlValue)
    (f : SqliteFile) (fk : ForeignKey) : SqliteFile :=
  if fk.cascade = true ∧ fk.parent = w.table then
    match row fk.key, f.table fk.child with
    | some k, some child =>
      f.setTable fk.child (child.deleteReferring (engine.compared t fk.key) fk.column k)
    | _, _ => f
  else f

/-- The row in its table, and what the foreign keys make of it. -/
def store (engine : Engine) (w : RowWrite) (f : SqliteFile) (t : FileTable) : SqliteFile :=
  let row := t.replacingRow engine.convert w.values
  let f' := f.setTable w.table (t.insertOrReplace row)
  if ∃ other ∈ t.rows, t.SameKey row other then foreignKeys.foldl (w.cascade engine t row) f'
  else f'

/-- `INSERT OR REPLACE INTO table(columns) VALUES (params)`. -/
def execute (engine : Engine) (w : RowWrite) (f : SqliteFile) : DomainResult Unit × SqliteFile :=
  match f.table w.table with
  | none => (.error (.storage (engine.describe (.noSuchTable w.table))), f)
  | some t =>
    match w.columns.find? (· ∉ t.names) with
    | some column => (.error (.storage (engine.describe (.noSuchColumn w.table column))), f)
    | none =>
      match foreignKeys.findSome? (w.unresolved f t) with
      | some refusal => (.error (.storage (engine.describe refusal)), f)
      | none =>
        match t.columns.find? fun c => c.notNull &&
            (t.replacingRow engine.convert w.values (caseFold c.spelling)).isNone with
        | some c => (.error (.storage (engine.describe (.notNull w.table c.spelling))), f)
        | none =>
          if foreignKeys.any (w.dangles engine f (t.replacingRow engine.convert w.values)) then
            (.error (.storage (engine.describe .foreignKey)), f)
          else (.ok (), w.store engine f t)

/-- The row in its table of the database. -/
def replaced (db : Database) : RowWrite → Database
  | account row => { db with accounts := db.accounts.replace row }
  | scope row => { db with scopes := db.scopes.replace row }
  | utxo row => { db with utxos := db.utxos.replace row }
  | lock row => { db with locks := db.locks.replace row }
  | operation row => { db with operations := db.operations.replace row }
  | intent row => { db with intents := db.intents.replace row }

/-- The database without the inputs and effects of an intent. -/
def withoutParts (db : Database) (operationId : String) : Database :=
  { db with
    intentInputs := db.intentInputs.deleteWhere (·.operationId = operationId)
    intentEffects := db.intentEffects.deleteWhere (·.operationId = operationId) }

/-- The row in the database; what an intent consists of goes with the one that is replaced. -/
def onDatabase (db : Database) (w : RowWrite) : Database :=
  match w with
  | intent row =>
    if (db.intents.find row.operationId).isSome then withoutParts (w.replaced db) row.operationId
    else w.replaced db
  | _ => w.replaced db

/-- What the row refers to is there. -/
def Referred (db : Database) : RowWrite → Prop
  | scope row => (db.accounts.find row.accountId).isSome = true
  | _ => True

end RowWrite

/-! ## Rows that are read back -/

namespace SqlValue

theorem asTextOption_map (s : Option String) : asTextOption (s.map .text) = some s := by
  cases s <;> rfl

theorem asIntegerOption_map (n : Option SqlInteger) :
    asIntegerOption (n.map .integer) = some n := by
  cases n <;> rfl

theorem asText_eq_some {v : Option SqlValue} {s : String} (h : asText v = some s) :
    v = some (.text s) := by
  unfold asText at h
  split at h
  · cases h
    rfl
  · cases h

end SqlValue

open SqlValue

section Columns

variable {f : String → Option SqlValue}

theorem AccountRow.ofColumns_params {row : AccountRow}
    (h : ∀ name v, (RowWrite.account row).values.lookup name = some v → f name = v) :
    AccountRow.ofColumns f = some row := by
  unfold AccountRow.ofColumns
  rw [h "account_id" _ rfl, h "name" _ rfl, h "capabilities" _ rfl]
  rfl

theorem ScopeRow.ofColumns_params {row : ScopeRow}
    (h : ∀ name v, (RowWrite.scope row).values.lookup name = some v → f name = v) :
    ScopeRow.ofColumns f = some row := by
  unfold ScopeRow.ofColumns
  rw [h "scope_id" _ rfl, h "account_id" _ rfl, h "descriptor_ref" _ rfl,
    h "derivation_scope" _ rfl, h "capabilities" _ rfl, h "priority" _ rfl]
  rfl

theorem UtxoRow.ofColumns_params {row : UtxoRow}
    (h : ∀ name v, (RowWrite.utxo row).values.lookup name = some v → f name = v) :
    UtxoRow.ofColumns f = some row := by
  unfold UtxoRow.ofColumns
  rw [h "outpoint" _ rfl, h "txid" _ rfl, h "vout" _ rfl, h "account_id" _ rfl,
    h "scope_id" _ rfl, h "value_sats" _ rfl, h "onchain_state" _ rfl, h "availability" _ rfl,
    h "role" _ rfl, h "binding_operation_id" _ rfl, h "binding_phase" _ rfl,
    h "conflict_message" _ rfl, h "conflict_recorded_at" _ rfl, asTextOption_map,
    asTextOption_map, asTextOption_map, asIntegerOption_map]
  rfl

theorem LockRow.ofColumns_params {row : LockRow}
    (h : ∀ name v, (RowWrite.lock row).values.lookup name = some v → f name = v) :
    LockRow.ofColumns f = some row := by
  unfold LockRow.ofColumns
  rw [h "outpoint" _ rfl, h "operation_id" _ rfl, h "account_id" _ rfl, h "scope_id" _ rfl,
    h "purpose" _ rfl, h "owner" _ rfl, h "created_at" _ rfl, h "expires_at" _ rfl,
    asIntegerOption_map]
  rfl

theorem OperationRow.ofColumns_params {row : OperationRow}
    (h : ∀ name v, (RowWrite.operation row).values.lookup name = some v → f name = v) :
    OperationRow.ofColumns f = some row := by
  unfold OperationRow.ofColumns
  rw [h "operation_id" _ rfl, h "phase" _ rfl, h "updated_at" _ rfl, h "expires_at" _ rfl,
    asIntegerOption_map]
  rfl

theorem IntentRow.ofColumns_params {row : IntentRow}
    (h : ∀ name v, (RowWrite.intent row).values.lookup name = some v → f name = v) :
    IntentRow.ofColumns f = some row := by
  unfold IntentRow.ofColumns
  rw [h "operation_id" _ rfl, h "change_scope_id" _ rfl, h "status" _ rfl, h "recorded_at" _ rfl,
    h "expires_at" _ rfl, asIntegerOption_map]
  rfl

/-- What holds of every result of the rest holds of every result. -/
theorem bind_forall {α β : Type} {P : β → Prop} {o : Option α} {g : α → Option β}
    (h : ∀ a, o = some a → ∀ b, g a = some b → P b) (b : β) (hb : (o >>= g) = some b) : P b := by
  obtain ⟨a, ha, hb⟩ := Option.bind_eq_some_iff.mp hb
  exact h a ha b hb

theorem AccountRow.key_of_ofColumns (row : AccountRow) (h : AccountRow.ofColumns f = some row) :
    f "account_id" = some (.text row.accountId) := by
  revert row
  refine bind_forall fun key hkey => ?_
  iterate 2 refine bind_forall fun _ _ => ?_
  rintro row ⟨⟩
  exact asText_eq_some hkey

theorem ScopeRow.key_of_ofColumns (row : ScopeRow) (h : ScopeRow.ofColumns f = some row) :
    f "scope_id" = some (.text row.scopeId) := by
  revert row
  refine bind_forall fun key hkey => ?_
  iterate 5 refine bind_forall fun _ _ => ?_
  rintro row ⟨⟩
  exact asText_eq_some hkey

theorem UtxoRow.key_of_ofColumns (row : UtxoRow) (h : UtxoRow.ofColumns f = some row) :
    f "outpoint" = some (.text row.outpoint) := by
  revert row
  refine bind_forall fun key hkey => ?_
  iterate 12 refine bind_forall fun _ _ => ?_
  rintro row ⟨⟩
  exact asText_eq_some hkey

theorem LockRow.key_of_ofColumns (row : LockRow) (h : LockRow.ofColumns f = some row) :
    f "outpoint" = some (.text row.outpoint) := by
  revert row
  refine bind_forall fun key hkey => ?_
  iterate 7 refine bind_forall fun _ _ => ?_
  rintro row ⟨⟩
  exact asText_eq_some hkey

theorem OperationRow.key_of_ofColumns (row : OperationRow)
    (h : OperationRow.ofColumns f = some row) :
    f "operation_id" = some (.text row.operationId) := by
  revert row
  refine bind_forall fun key hkey => ?_
  iterate 3 refine bind_forall fun _ _ => ?_
  rintro row ⟨⟩
  exact asText_eq_some hkey

theorem IntentRow.key_of_ofColumns (row : IntentRow) (h : IntentRow.ofColumns f = some row) :
    f "operation_id" = some (.text row.operationId) := by
  revert row
  refine bind_forall fun key hkey => ?_
  iterate 4 refine bind_forall fun _ _ => ?_
  rintro row ⟨⟩
  exact asText_eq_some hkey

theorem IntentInputRow.operationId_of_ofColumns (row : IntentInputRow)
    (h : IntentInputRow.ofColumns f = some row) :
    f "operation_id" = some (.text row.operationId) := by
  revert row
  refine bind_forall fun operationId hoperation => ?_
  iterate 2 refine bind_forall fun _ _ => ?_
  rintro row ⟨⟩
  exact asText_eq_some hoperation

theorem IntentEffectRow.operationId_of_ofColumns (row : IntentEffectRow)
    (h : IntentEffectRow.ofColumns f = some row) :
    f "operation_id" = some (.text row.operationId) := by
  revert row
  refine bind_forall fun operationId hoperation => ?_
  iterate 4 refine bind_forall fun _ _ => ?_
  rintro row ⟨⟩
  exact asText_eq_some hoperation

end Columns

namespace SqlValue

theorem stores_map_text {s : Option String} {v : SqlValue} (h : s.map .text = some v) :
    Affinity.text.Stores v := by
  obtain ⟨s, -, rfl⟩ := Option.map_eq_some_iff.mp h
  trivial

theorem stores_map_integer {n : Option SqlInteger} {v : SqlValue} (h : n.map .integer = some v) :
    Affinity.integer.Stores v := by
  obtain ⟨n, -, rfl⟩ := Option.map_eq_some_iff.mp h
  trivial

end SqlValue

/-! ## One statement -/

namespace RowWrite

variable {engine : Engine} {w : RowWrite} {t : FileTable} {f f' : SqliteFile} {db : Database}

/-- The table has the primary key it is declared with, and the columns that are written store what
they are given, and have no defaults. -/
structure Suited (w : RowWrite) (t : FileTable) : Prop where
  distinct : t.names.Nodup
  key : t.key = [w.keyColumn]
  plain : ∀ c ∈ t.columns, caseFold c.spelling ∈ w.columns → c.default = none
  stores : ∀ c ∈ t.columns, ∀ v, w.values.lookup (caseFold c.spelling) = some (some v) →
    c.type.Stores v

/-- No column is left with a null it refuses. -/
def Fits (w : RowWrite) (t : FileTable) : Prop :=
  ∀ c ∈ t.columns, c.notNull = true →
    (w.values.lookup (caseFold c.spelling)).join.isSome = true ∨ c.default.isSome = true

theorem mem_columns_of_lookup {name : String} {v : Option SqlValue}
    (h : w.values.lookup name = some v) : name ∈ w.columns := by
  obtain ⟨before, after, hvalues, -⟩ := List.lookup_eq_some_iff.mp h
  have hmem : (name, v) ∈ w.values := by
    rw [hvalues]
    exact List.mem_append_right _ List.mem_cons_self
  exact (List.of_mem_zip hmem).1

/-- The columns that are written are read back. -/
theorem value_written (hsuited : w.Suited t) (hcolumns : ∀ c ∈ w.columns, c ∈ t.names)
    {name : String} {v : Option SqlValue} (h : w.values.lookup name = some v) :
    t.value (t.replacingRow engine.convert w.values) name = v := by
  have hmem := mem_columns_of_lookup h
  refine DeclaredTable.value_replacingRow (hcolumns name hmem) h fun c hc hname => ?_
  refine ⟨hsuited.plain c hc (hname ▸ hmem), ?_⟩
  cases v with
  | none => rfl
  | some v =>
    exact congrArg some (engine.convert_stored (hsuited.stores c hc v (hname ▸ h)))

theorem text_injective : Function.Injective SqlValue.text := fun _ _ h => SqlValue.text.inj h

@[simp] theorem replaced_tick (w : RowWrite) (db : Database) :
    (w.replaced db).tick = db.tick := by
  cases w <;> rfl

@[simp] theorem replaced_intentInputs (w : RowWrite) (db : Database) :
    (w.replaced db).intentInputs = db.intentInputs := by
  cases w <;> rfl

@[simp] theorem replaced_intentEffects (w : RowWrite) (db : Database) :
    (w.replaced db).intentEffects = db.intentEffects := by
  cases w <;> rfl

/-- A table that is read row by row has the row replaced. -/
theorem mapM_written {ρ : Type} {key : ρ → String} {dec : (String → Option SqlValue) → Option ρ}
    {rows : Table ρ String key} {x : ρ} (ht : f.table w.table = some t) (hsuited : w.Suited t)
    (hdec : ∀ row x, dec row = some x → row w.keyColumn = some (.text (key x)))
    (hnew : dec (t.value (t.replacingRow engine.convert w.values)) = some x)
    (h : (f.content w.table).mapM dec = some rows.rows) :
    ((f.setTable w.table (t.insertOrReplace (t.replacingRow engine.convert w.values))).content
      w.table).mapM dec = some (rows.replace x).rows := by
  rw [content_setTable, if_pos rfl]
  rw [content_of_table ht] at h
  exact DeclaredTable.mapM_content_insertOrReplace text_injective hsuited.key hdec hnew h

theorem table_ne_meta (w : RowWrite) : w.table ≠ "meta" := by
  cases w <;> simp [table]

theorem tick_setTable {name : String} (h : name ≠ "meta") (t : FileTable) :
    (f.setTable name t).tick engine = f.tick engine := by
  unfold SqliteFile.tick
  rw [table_setTable, Function.update_of_ne h.symm]

/-- The file with the row denotes the database with the row. -/
theorem denotes_insertOrReplace (hdb : Denotes engine f db) (ht : f.table w.table = some t)
    (hsuited : w.Suited t) (hcolumns : ∀ c ∈ w.columns, c ∈ t.names) :
    Denotes engine
      (f.setTable w.table (t.insertOrReplace (t.replacingRow engine.convert w.values)))
      (w.replaced db) := by
  have hother : ∀ name, name ≠ w.table →
      (f.setTable w.table (t.insertOrReplace (t.replacingRow engine.convert w.values))).content
        name = f.content name := by
    intro name hname
    rw [content_setTable, if_neg hname]
  have hread : ∀ name v, w.values.lookup name = some v →
      t.value (t.replacingRow engine.convert w.values) name = v :=
    fun _ _ => value_written hsuited hcolumns
  refine ⟨?_, ?_, ?_, ?_, ?_, ?_, ?_, ?_, ?_⟩
  · rw [tick_setTable w.table_ne_meta, replaced_tick]
    exact hdb.tick
  · cases w with
    | account row =>
      exact mapM_written (w := .account row) ht hsuited (fun _ => AccountRow.key_of_ofColumns)
        (AccountRow.ofColumns_params hread) hdb.accounts
    | scope | utxo | lock | operation | intent =>
      rw [hother _ (by simp [table])]
      exact hdb.accounts
  · cases w with
    | scope row =>
      exact mapM_written (w := .scope row) ht hsuited (fun _ => ScopeRow.key_of_ofColumns)
        (ScopeRow.ofColumns_params hread) hdb.scopes
    | account | utxo | lock | operation | intent =>
      rw [hother _ (by simp [table])]
      exact hdb.scopes
  · cases w with
    | utxo row =>
      exact mapM_written (w := .utxo row) ht hsuited (fun _ => UtxoRow.key_of_ofColumns)
        (UtxoRow.ofColumns_params hread) hdb.utxos
    | account | scope | lock | operation | intent =>
      rw [hother _ (by simp [table])]
      exact hdb.utxos
  · cases w with
    | lock row =>
      exact mapM_written (w := .lock row) ht hsuited (fun _ => LockRow.key_of_ofColumns)
        (LockRow.ofColumns_params hread) hdb.locks
    | account | scope | utxo | operation | intent =>
      rw [hother _ (by simp [table])]
      exact hdb.locks
  · cases w with
    | operation row =>
      exact mapM_written (w := .operation row) ht hsuited (fun _ => OperationRow.key_of_ofColumns)
        (OperationRow.ofColumns_params hread) hdb.operations
    | account | scope | utxo | lock | intent =>
      rw [hother _ (by simp [table])]
      exact hdb.operations
  · cases w with
    | intent row =>
      exact mapM_written (w := .intent row) ht hsuited (fun _ => IntentRow.key_of_ofColumns)
        (IntentRow.ofColumns_params hread) hdb.intents
    | account | scope | utxo | lock | operation =>
      rw [hother _ (by simp [table])]
      exact hdb.intents
  · rw [hother _ (by cases w <;> simp [table]), replaced_intentInputs]
    exact hdb.intentInputs
  · rw [hother _ (by cases w <;> simp [table]), replaced_intentEffects]
    exact hdb.intentEffects

/-! ### Foreign keys -/

/-- Text is compared as it is with the primary keys that are written. -/
theorem compared_key (hsuited : w.Suited t) (s : String) :
    engine.compared t w.keyColumn (.text s) = .text s := by
  have htext : ∀ {type : Affinity} {s s' : String}, type.Stores (.text s) →
      type.Stores (.text s') := by
    intro type _ _ h
    cases type <;> exact h
  unfold Engine.compared
  cases hc : t.column w.keyColumn with
  | none => rfl
  | some c =>
    obtain ⟨hmem, hname⟩ := DeclaredTable.column_eq_some hc
    have hkey : ∃ key, w.values.lookup w.keyColumn = some (some (.text key)) := by
      cases w <;> exact ⟨_, rfl⟩
    obtain ⟨key, hkey⟩ := hkey
    exact engine.convert_stored (htext (hsuited.stores c hmem _ (hname ▸ hkey)))

/-- The accounts that a scope may refer to are those of the database. -/
theorem dangles_iff (hfitted : ∀ (w : RowWrite) t, f.table w.table = some t → w.Suited t)
    (hdb : Denotes engine f db) (ht : f.table w.table = some t)
    (hcolumns : ∀ c ∈ w.columns, c ∈ t.names)
    (hresolved : foreignKeys.findSome? (w.unresolved f t) = none) :
    foreignKeys.any (w.dangles engine f (t.replacingRow engine.convert w.values)) = true ↔
      ¬ Referred db w := by
  cases w with
  | account | utxo | lock | operation | intent =>
    simp [foreignKeys, dangles, table, Referred]
  | scope row =>
    have hsuited : (RowWrite.scope row).Suited t := hfitted (.scope row) t ht
    have hread : t.replacingRow engine.convert (RowWrite.scope row).values "account_id" =
        some (.text row.accountId) := by
      have hvalue : t.value (t.replacingRow engine.convert (RowWrite.scope row).values)
          "account_id" = some (.text row.accountId) := value_written hsuited hcolumns rfl
      unfold DeclaredTable.value at hvalue
      rwa [if_pos (hcolumns _ (List.mem_cons_of_mem _ List.mem_cons_self))] at hvalue
    cases hparent : f.table "accounts" with
    | none => simp [foreignKeys, unresolved, table, hparent] at hresolved
    | some parent =>
      have hcompared : engine.compared parent "account_id" (.text row.accountId) =
          .text row.accountId :=
        compared_key (hfitted (.account ⟨row.accountId, "", ""⟩) parent hparent) row.accountId
      have haccounts : (parent.rows.any fun other =>
          parent.value other "account_id" = some (.text row.accountId)) =
          (db.accounts.find row.accountId).isSome := by
        have hrows := hdb.accounts
        rw [content_of_table hparent] at hrows
        exact DeclaredTable.any_content_eq_isSome text_injective
          (fun _ => AccountRow.key_of_ofColumns) hrows row.accountId
      have hdangles : foreignKeys.any ((RowWrite.scope row).dangles engine f
          (t.replacingRow engine.convert (RowWrite.scope row).values)) =
          !(db.accounts.find row.accountId).isSome := by
        rw [← haccounts]
        simp only [foreignKeys, dangles, table, List.any_cons, List.any_nil, hread, hparent,
          hcompared, Option.any_some, decide_true, Bool.true_and, String.reduceEq, decide_false,
          Bool.false_and, Bool.or_false]
      rw [hdangles, Referred, Bool.not_eq_true', Bool.not_eq_true]

/-- Only what refers to an intent is deleted with it. -/
theorem foldl_cascade_of_ne (h : w.table ≠ "intents") (row : String → Option SqlValue)
    (f : SqliteFile) : foreignKeys.foldl (w.cascade engine t row) f = f := by
  simp [foreignKeys, cascade, h.symm]

theorem content_cascade {fk : ForeignKey} (hcascade : fk.cascade = true)
    (hparent : fk.parent = w.table) {row : String → Option SqlValue} {k : SqlValue}
    (hrow : row fk.key = some k) (f : SqliteFile) (name : String) :
    (w.cascade engine t row f fk).content name =
      if name = fk.child then
        (f.content name).filter fun row => (row fk.column).map (engine.compared t fk.key) ≠ some k
      else f.content name := by
  unfold cascade
  rw [if_pos ⟨hcascade, hparent⟩, hrow]
  cases hchild : f.table fk.child with
  | none =>
    dsimp only
    split_ifs with hname
    · unfold SqliteFile.content
      rw [hname, hchild]
      rfl
    · rfl
  | some child =>
    dsimp only
    rw [content_setTable]
    split_ifs with hname
    · rw [DeclaredTable.content_deleteReferring, hname, content_of_table hchild]
    · rfl

theorem tick_cascade {fk : ForeignKey} (h : fk.child ≠ "meta") (row : String → Option SqlValue)
    (f : SqliteFile) : (w.cascade engine t row f fk).tick engine = f.tick engine := by
  unfold cascade
  split_ifs
  · split
    · exact tick_setTable h _
    · rfl
  · rfl

/-- The rows that refer to an intent are those of its inputs and effects. -/
theorem denotes_cascade {row : IntentRow} {r : String → Option SqlValue}
    (hkey : r "operation_id" = some (.text row.operationId))
    (hcompared : ∀ s, engine.compared t "operation_id" (.text s) = .text s)
    (hdb : Denotes engine f db) :
    Denotes engine (foreignKeys.foldl ((RowWrite.intent row).cascade engine t r) f)
      (withoutParts db row.operationId) := by
  have hscopes : (RowWrite.intent row).cascade engine t r f
      ⟨"scopes", "account_id", "accounts", "account_id", false⟩ = f := if_neg (by simp)
  have hinputs : ∀ f name, ((RowWrite.intent row).cascade engine t r f
      ⟨"intent_inputs", "operation_id", "intents", "operation_id", true⟩).content name = _ :=
    content_cascade rfl rfl hkey
  have heffects : ∀ f name, ((RowWrite.intent row).cascade engine t r f
      ⟨"intent_effects", "operation_id", "intents", "operation_id", true⟩).content name = _ :=
    content_cascade rfl rfl hkey
  unfold foreignKeys
  simp only [List.foldl_cons, List.foldl_nil, hscopes]
  generalize hlast : (RowWrite.intent row).cascade engine t r _
    ⟨"intent_effects", "operation_id", "intents", "operation_id", true⟩ = f'
  have hother : ∀ name, name ≠ "intent_inputs" → name ≠ "intent_effects" →
      f'.content name = f.content name := by
    intro name hnotinputs hnoteffects
    rw [← hlast, heffects, if_neg hnoteffects, hinputs, if_neg hnotinputs]
  -- what refers to the intent is what is deleted
  have hrefers : ∀ s : String, ((some (SqlValue.text s)).map (engine.compared t "operation_id") ≠
      some (.text row.operationId)) ↔ ¬ s = row.operationId := by
    intro s
    rw [Option.map_some, hcompared, ne_eq, Option.some.injEq, SqlValue.text.injEq]
  refine ⟨?_, hother "accounts" (by decide) (by decide) ▸ hdb.accounts,
    hother "scopes" (by decide) (by decide) ▸ hdb.scopes,
    hother "utxos" (by decide) (by decide) ▸ hdb.utxos,
    hother "locks" (by decide) (by decide) ▸ hdb.locks,
    hother "operations" (by decide) (by decide) ▸ hdb.operations,
    hother "intents" (by decide) (by decide) ▸ hdb.intents, ?_, ?_⟩
  · rw [← hlast, tick_cascade (by simp), tick_cascade (by simp)]
    exact hdb.tick
  · rw [← hlast, heffects, if_neg (by simp), hinputs, if_pos rfl]
    refine DeclaredTable.mapM_filter (fun columns x hx => ?_) hdb.intentInputs
    simp only [IntentInputRow.operationId_of_ofColumns x hx, hrefers, decide_not]
  · rw [← hlast, heffects, if_pos rfl, hinputs, if_neg (by simp)]
    refine DeclaredTable.mapM_filter (fun columns x hx => ?_) hdb.intentEffects
    simp only [IntentEffectRow.operationId_of_ofColumns x hx, hrefers, decide_not]

/-- The file with the row, and without what referred to the one it replaces, denotes the database
with the row. -/
theorem denotes_store (hdb : Denotes engine f db) (ht : f.table w.table = some t)
    (hsuited : w.Suited t) (hcolumns : ∀ c ∈ w.columns, c ∈ t.names) :
    Denotes engine (w.store engine f t) (w.onDatabase db) := by
  have hreplaced := denotes_insertOrReplace hdb ht hsuited hcolumns
  unfold store
  dsimp only
  cases w with
  | account | scope | utxo | lock | operation =>
    rw [foldl_cascade_of_ne (by simp [table]), ite_self]
    exact hreplaced
  | intent row =>
    have hkey : t.value (t.replacingRow engine.convert (RowWrite.intent row).values)
        "operation_id" = some (.text row.operationId) := value_written hsuited hcolumns rfl
    have hthere : (∃ other ∈ t.rows, t.SameKey
        (t.replacingRow engine.convert (RowWrite.intent row).values) other) ↔
          (db.intents.find row.operationId).isSome = true := by
      have hrows : (f.content (RowWrite.intent row).table).mapM IntentRow.ofColumns =
          some db.intents.rows := hdb.intents
      rw [content_of_table ht] at hrows
      rw [← DeclaredTable.any_content_eq_isSome text_injective
        (fun _ => IntentRow.key_of_ofColumns) hrows row.operationId, List.any_eq_true]
      simp only [DeclaredTable.sameKey_iff hsuited.key hkey, decide_eq_true_eq, keyColumn]
    unfold onDatabase
    dsimp only
    split_ifs with hcascades hfound hfound
    · refine denotes_cascade ?_ (compared_key hsuited) hreplaced
      unfold DeclaredTable.value at hkey
      rwa [if_pos (hcolumns _ List.mem_cons_self)] at hkey
    · exact (hfound (hthere.mp hcascades)).elim
    · exact (hcascades (hthere.mpr hfound)).elim
    · exact hreplaced

/-! ### Refusals -/

/-- The check of the statement finds a column that refuses null, if there is one. -/
theorem find?_refusing_eq_none_iff (hsuited : w.Suited t) :
    (t.columns.find? fun c => c.notNull &&
      (t.replacingRow engine.convert w.values (caseFold c.spelling)).isNone) = none ↔
      w.Fits t := by
  have hunfit : (t.columns.find? fun c => c.notNull &&
      (t.replacingRow engine.convert w.values (caseFold c.spelling)).isNone) = none ↔
        ¬ t.Unfit (t.replacingRow engine.convert w.values) := by
    unfold DeclaredTable.Unfit
    simp
  rw [hunfit, DeclaredTable.unfit_replacingRow hsuited.distinct]
  unfold Fits
  simp only [not_exists, not_and, Option.isSome_iff_ne_none]
  refine forall_congr' fun c => forall_congr' fun _ => forall_congr' fun _ => ?_
  tauto

theorem find?_missing_eq_none_iff :
    w.columns.find? (· ∉ t.names) = none ↔ ∀ c ∈ w.columns, c ∈ t.names := by
  simp

/-- A statement is refused, or the row fits, refers to what is there, and is in the table. -/
theorem execute_cases (w : RowWrite)
    (hfitted : ∀ (w : RowWrite) t, f.table w.table = some t → w.Suited t)
    (hdb : Denotes engine f db) :
    (∃ e, w.execute engine f = (.error (.storage e), f)) ∨
      ∃ t, f.table w.table = some t ∧ (∀ c ∈ w.columns, c ∈ t.names) ∧ w.Fits t ∧
        Referred db w ∧ w.execute engine f = (.ok (), w.store engine f t) := by
  unfold execute
  cases ht : f.table w.table with
  | none => exact .inl ⟨_, rfl⟩
  | some t =>
    dsimp only
    cases hmissing : w.columns.find? (· ∉ t.names) with
    | some column => exact .inl ⟨_, rfl⟩
    | none =>
      dsimp only
      cases hresolved : foreignKeys.findSome? (w.unresolved f t) with
      | some refusal => exact .inl ⟨_, rfl⟩
      | none =>
        dsimp only
        cases hrefusing : t.columns.find? fun c => c.notNull &&
            (t.replacingRow engine.convert w.values (caseFold c.spelling)).isNone with
        | some c => exact .inl ⟨_, rfl⟩
        | none =>
          dsimp only
          have hcolumns := find?_missing_eq_none_iff.mp hmissing
          split_ifs with hdangles
          · exact .inl ⟨_, rfl⟩
          · rw [dangles_iff hfitted hdb ht hcolumns hresolved, not_not] at hdangles
            exact .inr ⟨t, rfl, hcolumns,
              (find?_refusing_eq_none_iff (hfitted w t ht)).mp hrefusing, hdangles, rfl⟩

/-- In a table with its columns, whose foreign keys make sense: what the statement ends with. -/
theorem execute_exact (hfitted : ∀ (w : RowWrite) t, f.table w.table = some t → w.Suited t)
    (hdb : Denotes engine f db) (ht : f.table w.table = some t)
    (hcolumns : ∀ c ∈ w.columns, c ∈ t.names)
    (hresolved : foreignKeys.findSome? (w.unresolved f t) = none) :
    (w.Fits t → Referred db w → w.execute engine f = (.ok (), w.store engine f t)) ∧
    (¬ w.Fits t → ∃ c ∈ t.columns, c.notNull = true ∧ w.execute engine f =
      (.error (.storage (engine.describe (.notNull w.table c.spelling))), f)) ∧
    (w.Fits t → ¬ Referred db w →
      w.execute engine f = (.error (.storage (engine.describe .foreignKey)), f)) := by
  unfold execute
  rw [ht]
  dsimp only
  rw [find?_missing_eq_none_iff.mpr hcolumns]
  dsimp only
  rw [hresolved]
  dsimp only
  have hdangles := dangles_iff hfitted hdb ht hcolumns hresolved
  have hrefusing : (t.columns.find? fun c => c.notNull &&
      (t.replacingRow engine.convert w.values (caseFold c.spelling)).isNone) = none ↔ w.Fits t :=
    find?_refusing_eq_none_iff (hfitted w t ht)
  refine ⟨fun hfits hreferred => ?_, fun hfits => ?_, fun hfits hreferred => ?_⟩
  · rw [hrefusing.mpr hfits]
    exact if_neg fun h => hdangles.mp h hreferred
  · cases hfound : t.columns.find? fun c => c.notNull &&
        (t.replacingRow engine.convert w.values (caseFold c.spelling)).isNone with
    | none => exact (hfits (hrefusing.mp hfound)).elim
    | some c =>
      have hc := List.find?_some hfound
      rw [Bool.and_eq_true] at hc
      exact ⟨c, List.mem_of_find?_eq_some hfound, hc.1, rfl⟩
  · rw [hrefusing.mpr hfits]
    exact if_pos (hdangles.mpr hreferred)

/-! ## Tables that keep their declaration -/

/-- Rows are written; the version, the columns and the primary keys stay. -/
structure SameShape (f f' : SqliteFile) : Prop where
  version : f'.userVersion = f.userVersion
  tables : ∀ name, (f'.table name).map (fun t => (t.columns, t.key)) =
    (f.table name).map fun t => (t.columns, t.key)

theorem SameShape.refl (f : SqliteFile) : SameShape f f := ⟨rfl, fun _ => rfl⟩

theorem SameShape.setTable (h : SameShape f f') {name : String} {t' : FileTable}
    (ht : f'.table name = some t) (hcolumns : t'.columns = t.columns) (hkey : t'.key = t.key) :
    SameShape f (f'.setTable name t') := by
  refine ⟨h.version, fun other => ?_⟩
  rw [← h.tables other, table_setTable, Function.update_apply]
  split_ifs with hother
  · rw [hother, ht, Option.map_some, Option.map_some, hcolumns, hkey]
  · rfl

theorem SameShape.table (h : SameShape f f') {name : String} {t' : FileTable}
    (ht' : f'.table name = some t') :
    ∃ t, f.table name = some t ∧ t'.columns = t.columns ∧ t'.key = t.key := by
  have htables := h.tables name
  rw [ht'] at htables
  obtain ⟨t, ht, hsame⟩ := Option.map_eq_some_iff.mp htables.symm
  obtain ⟨hcolumns, hkey⟩ := Prod.mk.inj hsame
  exact ⟨t, ht, hcolumns.symm, hkey.symm⟩

theorem SameShape.symm (h : SameShape f f') : SameShape f' f :=
  ⟨h.version.symm, fun name => (h.tables name).symm⟩

theorem SameShape.sameColumns (h : SameShape f f') : SameColumns f f' := by
  refine ⟨h.version, fun name => ?_⟩
  have hcolumns := congrArg (Option.map Prod.fst) (h.tables name)
  rwa [Option.map_map, Option.map_map] at hcolumns

theorem sameShape_cascade (h : SameShape f f') (row : String → Option SqlValue)
    (fk : ForeignKey) : SameShape f (w.cascade engine t row f' fk) := by
  unfold cascade
  split_ifs
  · split
    · rename_i hchild
      exact h.setTable hchild rfl rfl
    · exact h
  · exact h

theorem sameShape_store (ht : f.table w.table = some t) :
    SameShape f (w.store engine f t) := by
  have hset : SameShape f (f.setTable w.table
      (t.insertOrReplace (t.replacingRow engine.convert w.values))) :=
    (SameShape.refl f).setTable ht rfl rfl
  unfold store
  dsimp only
  split_ifs
  · exact sameShape_cascade (sameShape_cascade (sameShape_cascade hset _ _) _ _) _ _
  · exact hset

theorem sameShape_execute (w : RowWrite) (f : SqliteFile) :
    SameShape f (w.execute engine f).2 := by
  unfold execute
  split
  · exact .refl f
  · split
    · exact .refl f
    · split
      · exact .refl f
      · split
        · exact .refl f
        · split_ifs
          · exact .refl f
          · exact sameShape_store ‹_›

end RowWrite

end Txoscope
