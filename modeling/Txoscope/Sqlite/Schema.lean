import Txoscope.Lib.Contracts
import Txoscope.Lib.Relational
import Txoscope.Sqlite.Codec

/-!
# Opening a database file

The file of an SQLite store as it may be found: the version of its schema, and tables that an older
version of the program, or another one, has declared. `initialize` creates the tables that are
missing, adds the columns that are missing and checks those it reads from. It is made of statements
each of which is committed by itself, so it may be cut off between any two of them.

SQLite tells names apart up to the case of ASCII letters, but the program compares the columns that
`PRAGMA table_info` lists as they are spelled. The declared type of a column decides how a value is
stored, and is modelled by the affinity that SQLite derives from it. A file has ordinary tables with
a `rowid`: no views, triggers, indexes, `STRICT` tables, generated columns or collations, nor
constraints but `NOT NULL`, a primary key that is not an alias of the `rowid`, and the foreign keys
which the schema declares for a table of that name.
-/

namespace Txoscope

/-! ## Files -/

/-- What a column can hold besides null. -/
inductive SqlValue where
  | integer (n : SqlInteger)
  | real (bits : UInt64)
  | text (s : String)
  | blob (bytes : List UInt8)
  deriving DecidableEq

/-- The affinity of a column, which its declared type decides. -/
inductive Affinity where
  | text
  | numeric
  | integer
  | real
  | blob
  deriving DecidableEq

/-- The column stores the value as it is given. -/
def Affinity.Stores : Affinity → SqlValue → Prop
  | .blob, _ | _, .blob _ | .text, .text _ | .integer, .integer _ | .numeric, .integer _ => True
  | _, _ => False

@[simp] theorem Affinity.stores_text (s : String) : Affinity.text.Stores (.text s) := trivial

@[simp] theorem Affinity.stores_integer (n : SqlInteger) :
    Affinity.integer.Stores (.integer n) := trivial

/-- Names are the same up to the case of ASCII letters. -/
def caseFold (name : String) : String := .ofList (name.toList.map Char.toLower)

abbrev FileColumn := Column String Affinity SqlValue

/-- The columns of a table are named in lower case. -/
abbrev FileTable := DeclaredTable caseFold Affinity SqlValue

/-- A database file; its tables are named in lower case. -/
structure SqliteFile where
  userVersion : ℤ
  table : String → Option FileTable

namespace SqliteFile

/-- A file in which nothing was written yet. -/
def empty : SqliteFile := ⟨0, fun _ => none⟩

def setTable (f : SqliteFile) (name : String) (t : FileTable) : SqliteFile :=
  { f with table := Function.update f.table name (some t) }

/-- The column is declared. -/
def HasColumn (f : SqliteFile) (p : String × String) : Prop :=
  ∃ t, f.table p.1 = some t ∧ p.2 ∈ t.names

/-- The column is declared with that spelling. -/
def Spells (f : SqliteFile) (p : String × String) : Prop :=
  ∃ t, f.table p.1 = some t ∧ p.2 ∈ t.spellings

/-- The column is declared, but with other spellings only. -/
def Misspells (f : SqliteFile) (p : String × String) : Prop :=
  ∃ t, f.table p.1 = some t ∧ p.2 ∈ t.names ∧ p.2 ∉ t.spellings

/-- The rows of a table as they read; a table that is missing reads as empty. -/
def content (f : SqliteFile) (name : String) : List (String → Option SqlValue) :=
  (f.table name).elim [] DeclaredTable.content

end SqliteFile

/-! ## Statements -/

namespace SqliteStateStore

def schemaVersion : ℤ := 3

/-- The statements of `initialize`, each of which is committed by itself. -/
inductive SchemaStatement where
  | createTable (table : String) (columns : List FileColumn) (key : List String)
  | userVersion
  | setUserVersion (version : ℤ)
  | tableInfo (table : String)
  | addColumn (table column : String) (type : Affinity)
  | prepare (table : String) (columns : List String)
  | insertOrIgnore (table : String) (values : List (String × Option SqlValue))

/-- What SQLite refuses. -/
inductive Refusal where
  | noSuchTable (table : String)
  | noSuchColumn (table column : String)
  | duplicateColumn (column : String)
  | foreignKeyMismatch (child parent : String)
  | notNull (table column : String)
  | foreignKey

/-- How the driver words a refusal, and what SQLite makes of a value that is stored in a column:
some values it stores as they are, and text that is not a number stays text. -/
structure Engine where
  describe : Refusal → String
  convert : Affinity → SqlValue → SqlValue
  convert_stored : ∀ {type : Affinity} {v : SqlValue}, type.Stores v → convert type v = v
  convert_tick : ∀ type : Affinity, convert type (.text "tick") = .text "tick"

/-- A value as it is compared with those of a column. -/
def Engine.compared (engine : Engine) (t : FileTable) (name : String) (v : SqlValue) : SqlValue :=
  (t.column name).elim v fun c => engine.convert c.type v

/-- A table that was just declared. -/
def declared (columns : List FileColumn) (key : List String) : FileTable :=
  ⟨columns, key.map caseFold, []⟩

namespace SchemaStatement

abbrev Out : SchemaStatement → Type
  | userVersion => ℤ
  | tableInfo _ => List String
  | _ => Unit

/-- One statement. -/
def execute (engine : Engine) :
    (st : SchemaStatement) → SqliteFile → DomainResult st.Out × SqliteFile
  | createTable table columns key, f =>
    match f.table (caseFold table) with
    | some _ => (.ok (), f)
    | none => (.ok (), f.setTable (caseFold table) (declared columns key))
  | userVersion, f => (.ok f.userVersion, f)
  | setUserVersion version, f => (.ok (), { f with userVersion := version })
  | tableInfo table, f => (.ok ((f.table (caseFold table)).elim [] DeclaredTable.spellings), f)
  | addColumn table column type, f =>
    match f.table (caseFold table) with
    | none => (.error (.storage (engine.describe (.noSuchTable table))), f)
    | some t =>
      match t.addColumn ⟨column, type, false, none⟩ with
      | none => (.error (.storage (engine.describe (.duplicateColumn column))), f)
      | some t' => (.ok (), f.setTable (caseFold table) t')
  | prepare table columns, f =>
    match f.table (caseFold table) with
    | none => (.error (.storage (engine.describe (.noSuchTable table))), f)
    | some t =>
      match columns.find? (caseFold · ∉ t.names) with
      | some column => (.error (.storage (engine.describe (.noSuchColumn table column))), f)
      | none => (.ok (), f)
  | insertOrIgnore table values, f =>
    match f.table (caseFold table) with
    | none => (.error (.storage (engine.describe (.noSuchTable table))), f)
    | some t =>
      match (values.map (·.1)).find? (caseFold · ∉ t.names) with
      | some column => (.error (.storage (engine.describe (.noSuchColumn table column))), f)
      | none => (.ok (), f.setTable (caseFold table)
          (t.insertOrIgnore engine.convert (values.map (Prod.map caseFold id))))

end SchemaStatement

/-! ## Opening -/

abbrev SchemaProgram := Program SchemaStatement SchemaStatement.Out DomainError

/-- A column declared `NOT NULL`. -/
def required (spelling : String) (type : Affinity) : FileColumn := ⟨spelling, type, true, none⟩

def nullable (spelling : String) (type : Affinity) : FileColumn := ⟨spelling, type, false, none⟩

/-- The tables of `CREATE TABLE IF NOT EXISTS`: name, columns and primary key. -/
def schema : List (String × List FileColumn × List String) := [
  ("meta", [nullable "key" .text, required "value" .text], ["key"]),
  ("accounts", [nullable "account_id" .text, required "name" .text,
    required "capabilities" .text], ["account_id"]),
  ("scopes", [nullable "scope_id" .text, required "account_id" .text,
    required "descriptor_ref" .text, required "derivation_scope" .text,
    required "capabilities" .text, required "priority" .integer], ["scope_id"]),
  ("utxos", [nullable "outpoint" .text, required "txid" .text, required "vout" .integer,
    required "account_id" .text, required "scope_id" .text, required "value_sats" .integer,
    required "onchain_state" .text, required "availability" .text, required "role" .text,
    nullable "binding_operation_id" .text, nullable "binding_phase" .text,
    nullable "conflict_message" .text, nullable "conflict_recorded_at" .integer], ["outpoint"]),
  ("locks", [nullable "outpoint" .text, required "operation_id" .text,
    required "account_id" .text, required "scope_id" .text, required "purpose" .text,
    required "owner" .text, required "created_at" .integer, nullable "expires_at" .integer],
    ["outpoint"]),
  ("operations", [nullable "operation_id" .text, required "phase" .text,
    required "updated_at" .integer, nullable "expires_at" .integer], ["operation_id"]),
  ("intents", [nullable "operation_id" .text, required "change_scope_id" .text,
    required "status" .text, required "recorded_at" .integer, nullable "expires_at" .integer],
    ["operation_id"]),
  ("intent_inputs", [required "operation_id" .text, required "position" .integer,
    required "outpoint" .text], ["operation_id", "position"]),
  ("intent_effects", [required "operation_id" .text, required "position" .integer,
    required "effect_kind" .text, required "outpoint" .text, required "purpose" .text],
    ["operation_id", "position"])]

/-- `FOREIGN KEY(column) REFERENCES parent(key)`. -/
structure ForeignKey where
  child : String
  column : String
  parent : String
  key : String
  cascade : Bool

/-- The foreign keys of the tables of the schema. -/
def foreignKeys : List ForeignKey := [
  ⟨"scopes", "account_id", "accounts", "account_id", false⟩,
  ⟨"intent_inputs", "operation_id", "intents", "operation_id", true⟩,
  ⟨"intent_effects", "operation_id", "intents", "operation_id", true⟩]

/-- The queries that are prepared to check the columns of a table. -/
def queries : List (String × List String) := [
  ("utxos", ["outpoint", "txid", "vout", "account_id", "scope_id", "value_sats", "onchain_state",
    "availability", "role", "binding_operation_id", "binding_phase", "conflict_message",
    "conflict_recorded_at"]),
  ("locks", ["outpoint", "operation_id", "account_id", "scope_id", "purpose", "owner",
    "created_at", "expires_at"]),
  ("operations", ["operation_id", "phase", "updated_at", "expires_at"]),
  ("intents", ["operation_id", "change_scope_id", "status", "recorded_at", "expires_at"])]

def SchemaStatement.invoke (st : SchemaStatement) : SchemaProgram st.Out := Program.invoke st

/-- The columns of a table as they are spelled, from `PRAGMA table_info`. -/
def tableColumns (table : String) : SchemaProgram (List String) :=
  (SchemaStatement.tableInfo table).invoke

/-- Adds a column unless it is among those that were read. -/
def addMissing (columns : List String) (table column : String) (type : Affinity) :
    SchemaProgram Unit :=
  if column ∈ columns then pure () else (SchemaStatement.addColumn table column type).invoke

/-- From version 1 to 2. -/
def addConflictColumns : SchemaProgram Unit := do
  let utxoInfo ← tableColumns "utxos"
  addMissing utxoInfo "utxos" "conflict_message" .text
  addMissing utxoInfo "utxos" "conflict_recorded_at" .integer
  (SchemaStatement.setUserVersion 2).invoke

/-- From version 2 to 3, for one table. -/
def addExpiryColumn (table : String) : SchemaProgram Unit := do
  let columns ← tableColumns table
  addMissing columns table "expires_at" .integer

def expiring : List String := ["locks", "operations", "intents"]

/-- The error of a query that could not be prepared. -/
def unsupportedTable (table : String) : DomainError → DomainError
  | .storage err => .storage ("unsupported sqlite schema in table '" ++ table ++ "': " ++ err)
  | err => err

def checkQuery (query : String × List String) : SchemaProgram Unit :=
  (SchemaStatement.prepare query.1 query.2).invoke.handle fun err =>
    throw (unsupportedTable query.1 err)

def ensureCurrentSchema : SchemaProgram Unit := do
  let currentVersion ← SchemaStatement.userVersion.invoke
  if currentVersion > schemaVersion then
    throw (.storage ("unsupported sqlite schema version: " ++ toString currentVersion))
  else do
    (if currentVersion < 2 then addConflictColumns else pure ())
    (if currentVersion < 3 then Program.forEach addExpiryColumn expiring else pure ())
    Program.forEach checkQuery queries
    (SchemaStatement.setUserVersion schemaVersion).invoke

/-- The row of the tick. -/
def firstTick : List (String × Option SqlValue) :=
  [("key", some (.text "tick")), ("value", some (.text "0"))]

/-- `initialize`, which is a keyword here. -/
def initializeStore : SchemaProgram Unit := do
  Program.forEach (fun table =>
    (SchemaStatement.createTable table.1 table.2.1 table.2.2).invoke) schema
  ensureCurrentSchema
  (SchemaStatement.insertOrIgnore "meta" firstTick).invoke

end SqliteStateStore

end Txoscope
