import Txoscope.Sqlite.Database
import Txoscope.Sqlite.Opening

/-!
# The database in a file

`Denotes` says which database the store reads from a file once it is opened: the rows of its tables,
of which only the columns the store knows matter, with null for a column that is missing, and the
tick, which may be the first one that an opening inserts. Opening the file, in whatever parts and
however often, does not change it (`openings_denote`); a new file is the empty database.
-/

namespace Txoscope

/-! ## Columns -/

namespace SqlValue

def asText : Option SqlValue → Option String
  | some (.text s) => some s
  | _ => none

def asTextOption : Option SqlValue → Option (Option String)
  | none => some none
  | some (.text s) => some (some s)
  | _ => none

def asInteger : Option SqlValue → Option SqlInteger
  | some (.integer n) => some n
  | _ => none

def asIntegerOption : Option SqlValue → Option (Option SqlInteger)
  | none => some none
  | some (.integer n) => some (some n)
  | _ => none

def asPosition : Option SqlValue → Option ℕ
  | some (.integer n) => if 0 ≤ n.val then some n.val.toNat else none
  | _ => none

end SqlValue

open SqlValue SqliteStateStore

/-! ## Rows -/

def AccountRow.ofColumns (row : String → Option SqlValue) : Option AccountRow := do
  return {
    accountId := ← asText (row "account_id")
    name := ← asText (row "name")
    capabilities := ← asText (row "capabilities") }

def ScopeRow.ofColumns (row : String → Option SqlValue) : Option ScopeRow := do
  return {
    scopeId := ← asText (row "scope_id")
    accountId := ← asText (row "account_id")
    descriptorRef := ← asText (row "descriptor_ref")
    derivationScope := ← asText (row "derivation_scope")
    capabilities := ← asText (row "capabilities")
    priority := ← asInteger (row "priority") }

def UtxoRow.ofColumns (row : String → Option SqlValue) : Option UtxoRow := do
  return {
    outpoint := ← asText (row "outpoint")
    txid := ← asText (row "txid")
    vout := ← asInteger (row "vout")
    accountId := ← asText (row "account_id")
    scopeId := ← asText (row "scope_id")
    valueSats := ← asInteger (row "value_sats")
    onchainState := ← asText (row "onchain_state")
    availability := ← asText (row "availability")
    role := ← asText (row "role")
    bindingOperationId := ← asTextOption (row "binding_operation_id")
    bindingPhase := ← asTextOption (row "binding_phase")
    conflictMessage := ← asTextOption (row "conflict_message")
    conflictRecordedAt := ← asIntegerOption (row "conflict_recorded_at") }

def LockRow.ofColumns (row : String → Option SqlValue) : Option LockRow := do
  return {
    outpoint := ← asText (row "outpoint")
    operationId := ← asText (row "operation_id")
    accountId := ← asText (row "account_id")
    scopeId := ← asText (row "scope_id")
    purpose := ← asText (row "purpose")
    owner := ← asText (row "owner")
    createdAt := ← asInteger (row "created_at")
    expiresAt := ← asIntegerOption (row "expires_at") }

def OperationRow.ofColumns (row : String → Option SqlValue) : Option OperationRow := do
  return {
    operationId := ← asText (row "operation_id")
    phase := ← asText (row "phase")
    updatedAt := ← asInteger (row "updated_at")
    expiresAt := ← asIntegerOption (row "expires_at") }

def IntentRow.ofColumns (row : String → Option SqlValue) : Option IntentRow := do
  return {
    operationId := ← asText (row "operation_id")
    changeScopeId := ← asText (row "change_scope_id")
    status := ← asText (row "status")
    recordedAt := ← asInteger (row "recorded_at")
    expiresAt := ← asIntegerOption (row "expires_at") }

def IntentInputRow.ofColumns (row : String → Option SqlValue) : Option IntentInputRow := do
  return {
    operationId := ← asText (row "operation_id")
    position := ← asPosition (row "position")
    outpoint := ← asText (row "outpoint") }

def IntentEffectRow.ofColumns (row : String → Option SqlValue) : Option IntentEffectRow := do
  return {
    operationId := ← asText (row "operation_id")
    position := ← asPosition (row "position")
    effectKind := ← asText (row "effect_kind")
    outpoint := ← asText (row "outpoint")
    purpose := ← asText (row "purpose") }

/-! ## Files -/

namespace SqliteFile

/-- `meta` as the program declares it. -/
def createdMeta : FileTable := declared [nullable "key" .text, required "value" .text] ["key"]

/-- `SELECT value FROM meta WHERE key = 'tick'`. -/
def tickOf (t : FileTable) : Option String :=
  (t.content.find? fun row => row "key" = some (.text "tick")).bind fun row => asText (row "value")

/-- The tick that is read after an opening has inserted the first one, unless there was one. -/
def tick (engine : Engine) (f : SqliteFile) : Option String :=
  tickOf (((f.table "meta").getD createdMeta).insertOrIgnore engine.convert firstTick)

/-- What the store reads from the file is the database. -/
structure Denotes (engine : Engine) (f : SqliteFile) (db : Database) : Prop where
  tick : f.tick engine = some db.tick
  accounts : (f.content "accounts").mapM AccountRow.ofColumns = some db.accounts.rows
  scopes : (f.content "scopes").mapM ScopeRow.ofColumns = some db.scopes.rows
  utxos : (f.content "utxos").mapM UtxoRow.ofColumns = some db.utxos.rows
  locks : (f.content "locks").mapM LockRow.ofColumns = some db.locks.rows
  operations : (f.content "operations").mapM OperationRow.ofColumns = some db.operations.rows
  intents : (f.content "intents").mapM IntentRow.ofColumns = some db.intents.rows
  intentInputs :
    (f.content "intent_inputs").mapM IntentInputRow.ofColumns = some db.intentInputs.rows
  intentEffects :
    (f.content "intent_effects").mapM IntentEffectRow.ofColumns = some db.intentEffects.rows

variable {engine : Engine} {f f' : SqliteFile} {db : Database}

theorem denotes_empty : Denotes engine empty Database.empty := by
  refine ⟨?_, rfl, rfl, rfl, rfl, rfl, rfl, rfl, rfl⟩
  generalize hrow : createdMeta.newRow engine.convert firstTick = row
  have hkey : createdMeta.value row "key" = some (.text "tick") := by
    rw [← hrow]
    exact congrArg some (engine.convert_tick .text)
  have hvalue : createdMeta.value row "value" = some (.text "0") := by
    rw [← hrow]
    exact congrArg some (engine.convert_stored trivial)
  have hfits : ¬ createdMeta.Unfit row := by
    rintro ⟨c, hc, hnull, hnone⟩
    rcases List.mem_cons.mp hc with rfl | hc
    · cases hnull
    · rw [List.mem_singleton.mp hc] at hnone
      exact Option.some_ne_none _ (hvalue.symm.trans hnone)
  have hfresh : ¬ ∃ other ∈ createdMeta.rows, createdMeta.SameKey row other := by
    rintro ⟨other, hmem, -⟩
    cases hmem
  have hadded : createdMeta.insertOrIgnore engine.convert firstTick =
      { createdMeta with rows := [row] } := by
    unfold DeclaredTable.insertOrIgnore
    rw [hrow, if_neg (not_or.mpr ⟨hfits, hfresh⟩)]
    rfl
  change tickOf (createdMeta.insertOrIgnore engine.convert firstTick) = some "0"
  rw [hadded]
  change ([createdMeta.value row].find? fun row => row "key" = some (.text "tick")).bind
    (fun row => asText (row "value")) = some "0"
  have hfound : [createdMeta.value row].find? (fun row => row "key" = some (.text "tick")) =
      some (createdMeta.value row) := List.find?_cons_of_pos (decide_eq_true hkey)
  rw [hfound, Option.bind_some, hvalue]
  rfl

/-- Inserting the first tick again makes no difference. -/
theorem tickOf_insertOrIgnore (t : FileTable) :
    tickOf ((t.insertOrIgnore engine.convert firstTick).insertOrIgnore engine.convert firstTick) =
      tickOf (t.insertOrIgnore engine.convert firstTick) := by
  have hcolumns : (t.insertOrIgnore engine.convert firstTick).columns = t.columns :=
    DeclaredTable.insertOrIgnore_columns ..
  rcases t.insertOrIgnore_cases engine.convert firstTick with hsame | hadded
  · rw [hsame, hsame]
  generalize t.insertOrIgnore engine.convert firstTick = t' at hcolumns hadded ⊢
  rcases t'.insertOrIgnore_cases engine.convert firstTick with hsame | hagain
  · rw [hsame]
  · have hrow : t'.value (t'.newRow engine.convert firstTick) =
        t.value (t.newRow engine.convert firstTick) := by
      unfold DeclaredTable.value DeclaredTable.newRow DeclaredTable.column DeclaredTable.names
      rw [hcolumns]
    unfold tickOf
    -- a tick that the second row would be is found before it
    rw [hagain, hrow, hadded, List.find?_append, List.find?_append, Option.or_assoc,
      Option.or_self]

end SqliteFile

namespace SqliteStateStore

open SqliteFile

variable {R : Database → Database → Prop} {engine : Engine} {f : SqliteFile} {db : Database}

namespace SchemaStatement

theorem execute_tick {st : SchemaStatement} {K : Set SchemaFact}
    (hallowed : schemaContract.allows K st) (f : SqliteFile) :
    (execute engine st f).2.tick engine = f.tick engine := by
  have hstep : TableStep engine "meta" (f.table "meta") _ := execute_table engine hallowed f "meta"
  unfold SqliteFile.tick
  generalize f.table "meta" = before at hstep ⊢
  generalize (execute engine st f).2.table "meta" = after at hstep ⊢
  cases hstep with
  | same => rfl
  | created hdeclared =>
    have hmeta : ∀ entry ∈ schema, entry.1 = "meta" →
        entry.2 = ([nullable "key" .text, required "value" .text], ["key"]) := by
      decide
    obtain ⟨columns, key, hmem, rfl⟩ := hdeclared
    cases hmeta _ hmem rfl
    rfl
  | added hmem =>
    have hother : ∀ p ∈ conflictColumns ++ expiryColumns, p.1 ≠ "meta" := by decide
    exact (hother _ hmem rfl).elim
  | ticked => exact tickOf_insertOrIgnore _

/-- A statement of an opening does not show in the database. -/
theorem execute_denotes {st : SchemaStatement} {K : Set SchemaFact}
    (hallowed : schemaContract.allows K st) (h : Denotes engine f db) :
    Denotes engine (execute engine st f).2 db := by
  have hcontent : ∀ name, name ≠ "meta" → (execute engine st f).2.content name = f.content name :=
    (execute_extends (allows_adds hallowed) f).content
  exact {
    tick := (execute_tick hallowed f).trans h.tick
    accounts := hcontent "accounts" (by decide) ▸ h.accounts
    scopes := hcontent "scopes" (by decide) ▸ h.scopes
    utxos := hcontent "utxos" (by decide) ▸ h.utxos
    locks := hcontent "locks" (by decide) ▸ h.locks
    operations := hcontent "operations" (by decide) ▸ h.operations
    intents := hcontent "intents" (by decide) ▸ h.intents
    intentInputs := hcontent "intent_inputs" (by decide) ▸ h.intentInputs
    intentEffects := hcontent "intent_effects" (by decide) ▸ h.intentEffects }

end SchemaStatement

/-- Rows are written, by which the database moves as `R` says. -/
structure Writes (engine : Engine) (R : Database → Database → Prop) (f f' : SqliteFile) : Prop where
  columns : SameColumns f f'
  database : ∀ db, Denotes engine f db → ∃ db', R db db' ∧ Denotes engine f' db'

/-- Parts of openings do not show in the database. -/
theorem openings_invisible (hdb : Denotes engine f db) {y : SqliteFile × List (SchemaProgram Unit)}
    (hrun : Openings engine (Writes engine R) (f, []) y) :
    ∃ db', Relation.ReflTransGen R db db' ∧ Denotes engine y.1 db' := by
  refine openings_invariant
    (I := fun f => ∃ db', Relation.ReflTransGen R db db' ∧ Denotes engine f db')
    (fun f₁ st hI hallowed => ?_) (fun f₁ f₂ hI hwritten => ?_) hrun ⟨db, .refl, hdb⟩
  · obtain ⟨db', hmoves, hdb'⟩ := hI
    exact ⟨db', hmoves, SchemaStatement.execute_denotes hallowed hdb'⟩
  · obtain ⟨db', hmoves, hdb'⟩ := hI
    obtain ⟨db'', hmove, hdb''⟩ := hwritten.database db' hdb'
    exact ⟨⟨db'', hmoves.tail hmove, hdb''⟩, hwritten.columns⟩

/-- An opening that is left alone is one more. -/
theorem openings_alone {env : SqliteFile → SqliteFile → Prop} {r : DomainResult Unit}
    {f' : SqliteFile}
    (h : Program.run (SchemaStatement.execute engine) initializeStore f = (r, f')) :
    Openings engine env (f, []) (f', []) := by
  have hcut := Program.cut_run (SchemaStatement.execute engine) initializeStore f
  rw [h] at hcut
  exact openings_cut hcut

/-- Opening such a file alone does not change its database. -/
theorem Openable.opens_denote (hopen : Openable f) (hdb : Denotes engine f db) :
    ∃ f', Program.run (SchemaStatement.execute engine) initializeStore f = (.ok (), f') ∧
      Current f' ∧ Denotes engine f' db := by
  obtain ⟨f', hend, hcurrent⟩ := hopen.opens engine
  obtain ⟨db', hmoves, hdb'⟩ :=
    openings_invisible (R := fun _ _ => False) hdb (openings_alone hend)
  rcases hmoves.cases_head with rfl | ⟨_, hmove, -⟩
  · exact ⟨f', hend, hcurrent, hdb'⟩
  · exact hmove.elim

/-- Any part of any number of openings of a file, while others write to its database: the database
is one that the writes alone lead to, and the next opening that is left alone succeeds, with the
current schema and that database in the file. -/
theorem openings_denote (hopen : Openable f) (hdb : Denotes engine f db)
    {y : SqliteFile × List (SchemaProgram Unit)}
    (hrun : Openings engine (Writes engine R) (f, []) y) :
    ∃ db', Relation.ReflTransGen R db db' ∧ Denotes engine y.1 db' ∧
      ∃ f', Program.run (SchemaStatement.execute engine) initializeStore y.1 = (.ok (), f') ∧
        Current f' ∧ Denotes engine f' db' := by
  obtain ⟨db', hmoves, hdb'⟩ := openings_invisible hdb hrun
  have hopen' := openings_openable (fun _ _ hwritten => hwritten.columns) hrun hopen
  exact ⟨db', hmoves, hdb', hopen'.opens_denote hdb'⟩

namespace Sample

def legacyDatabase : Database :=
  { Database.empty with
    tick := "7"
    accounts := ⟨[⟨"rgb", "L2", "btc_receive,rgb_receive,reserve_support"⟩],
      List.nodup_singleton _⟩
    utxos := ⟨[⟨"tx1:0", "tx1", zero, "rgb", "rgb_scope", sats, "confirmed", "selectable",
      "general", none, none, none, none⟩], List.nodup_singleton _⟩ }

theorem legacy_denotes : Denotes sqlite legacy legacyDatabase := by
  refine ⟨?_, ?_, ?_, ?_, ?_, ?_, ?_, ?_, ?_⟩ <;> decide +kernel

end Sample

theorem openings_denote_sample :
    ∃ f', Program.run (SchemaStatement.execute Sample.sqlite) initializeStore Sample.interrupted =
      (.ok (), f') ∧ Current f' ∧ Denotes Sample.sqlite f' Sample.legacyDatabase := by
  have hrun : Openings Sample.sqlite (Writes Sample.sqlite fun _ _ => False) (Sample.legacy, [])
      (Sample.interrupted, []) := Sample.interrupted_run
  obtain ⟨db', hmoves, -, hopened⟩ :=
    openings_denote (by decide +kernel) Sample.legacy_denotes hrun
  rcases hmoves.cases_head with rfl | ⟨_, hmove, -⟩
  · exact hopened
  · exact hmove.elim

end SqliteStateStore

end Txoscope
