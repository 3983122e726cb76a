import Txoscope.Core.Reconciliation
import Txoscope.Lib.Table
import Txoscope.Sqlite.Rows

/-!
# The database of the SQLite store

The tables of the schema and the reads of `StateRead`. Foreign keys are left out: every transaction
writes the parent row before its children.
-/

namespace Txoscope

open SqliteCodec

/-- The tables; of `meta` only the row `tick` is used. -/
structure Database where
  tick : String
  accounts : Table AccountRow String AccountRow.accountId
  scopes : Table ScopeRow String ScopeRow.scopeId
  utxos : Table UtxoRow String UtxoRow.outpoint
  locks : Table LockRow String LockRow.outpoint
  operations : Table OperationRow String OperationRow.operationId
  intents : Table IntentRow String IntentRow.operationId
  intentInputs : Table IntentInputRow (String × ℕ) IntentInputRow.key
  intentEffects : Table IntentEffectRow (String × ℕ) IntentEffectRow.key

namespace Database

/-- The database after `initialize`. -/
def empty : Database := ⟨"0", .empty, .empty, .empty, .empty, .empty, .empty, .empty, .empty⟩

/-! ### Reads -/

def readTick (db : Database) : DomainResult ℕ :=
  match Text.parseUnsigned u64Max db.tick with
  | some tick => .ok tick
  | none => .error (.corruptedState ("invalid tick value in sqlite meta table: " ++ db.tick))

theorem readTick_le {db : Database} {n : ℕ} (h : db.readTick = .ok n) : n ≤ u64Max := by
  unfold readTick at h
  cases hparse : Text.parseUnsigned u64Max db.tick with
  | none =>
    rw [hparse] at h
    cases h
  | some m =>
    rw [hparse] at h
    cases h
    exact Text.parseUnsigned_le hparse

theorem readTick_write (db : Database) {n : ℕ} (h : n ≤ u64Max) :
    ({ db with tick := Nat.repr n } : Database).readTick = .ok n := by
  unfold readTick
  simp only [Text.parseUnsigned_repr h]

/-- `ORDER BY priority, scope_id`. -/
def ScopeRow.before (a b : ScopeRow) : Bool :=
  (Int.decLt a.priority.val b.priority.val).decide ||
    (a.priority.val == b.priority.val && a.scopeId ≤ b.scopeId)

def accountScopes (db : Database) (accountId : AccountId) : List WalletScopeId :=
  (db.scopes.select (fun row => row.accountId = accountId.value) ScopeRow.before).map
    fun row => ⟨row.scopeId⟩

def readAccount (db : Database) (accountId : AccountId) : DomainResult (Option Account) :=
  db.accounts.read (fun row => do
    let capabilities ← decodeCapabilities row.capabilities
    return { id := ⟨row.accountId⟩, name := row.name, scopes := db.accountScopes accountId
             capabilities }) accountId.value

def readScope (db : Database) (scopeId : WalletScopeId) : DomainResult (Option WalletScope) :=
  db.scopes.read (fun row => do
    let capabilities ← decodeCapabilities row.capabilities
    let priority ← SqlInteger.get u32Max 5 row.priority
    return { id := ⟨row.scopeId⟩, accountId := ⟨row.accountId⟩, descriptorRef := row.descriptorRef
             derivationScope := row.derivationScope, capabilities
             priority := UInt32.ofNat priority }) scopeId.value

def getUtxo (db : Database) (outpoint : OutPoint) : DomainResult (Option ManagedUtxo) :=
  db.utxos.read UtxoRow.toUtxo outpoint.display

def getLock (db : Database) (outpoint : OutPoint) : DomainResult (Option OperationLock) :=
  db.locks.read LockRow.toLock outpoint.display

def readOperation (db : Database) (operationId : OperationId) :
    DomainResult (Option PersistedOperation) :=
  db.operations.read OperationRow.toOperation operationId.value

/-- The phase column alone, as `mark_intent_failed` and `apply_batch` read it. -/
def readPhase (db : Database) (operationId : OperationId) :
    DomainResult (Option OperationPhase) :=
  db.operations.read (fun row => decode row.phase) operationId.value

def readIntentHeader (db : Database) (operationId : OperationId) :
    DomainResult (Option IntentHeader) :=
  db.intents.read (IntentRow.header 2) operationId.value

def intentInputRows (db : Database) (operationId : OperationId) : List IntentInputRow :=
  db.intentInputs.select (fun row => row.operationId = operationId.value)
    fun a b => a.position ≤ b.position

def intentEffectRows (db : Database) (operationId : OperationId) : List IntentEffectRow :=
  db.intentEffects.select (fun row => row.operationId = operationId.value)
    fun a b => a.position ≤ b.position

def readIntentSelection (db : Database) (operationId : OperationId)
    (changeScopeId : WalletScopeId) (expiresAt : Option ℕ) : DomainResult OperationSelection := do
  let selectedOutpoints ←
    (db.intentInputRows operationId).mapM fun row => decodeOutpoint row.outpoint
  let effects ← (db.intentEffectRows operationId).mapM IntentEffectRow.effect
  return { operationId, selectedOutpoints, changeScopeId, effects, expiresAt }

def getIntent (db : Database) (operationId : OperationId) :
    DomainResult (Option OperationIntent) := do
  match ← db.readIntentHeader operationId with
  | none => return none
  | some header =>
    let selection ← db.readIntentSelection operationId header.changeScopeId header.expiresAt
    return some { selection, status := header.status, recordedAt := header.recordedAt }

def listUtxos (db : Database) : DomainResult (List ManagedUtxo) :=
  (db.utxos.select (fun _ => true) fun a b => a.outpoint ≤ b.outpoint).mapM UtxoRow.toUtxo

def listOperations (db : Database) : DomainResult (List PersistedOperation) :=
  (db.operations.select (fun _ => true) fun a b => a.operationId ≤ b.operationId).mapM
    OperationRow.toOperation

def listPendingIntents (db : Database) : DomainResult (List OperationIntent) :=
  (db.intents.select (fun row => row.status = "pending")
    fun a b => a.operationId ≤ b.operationId).mapM fun row => do
      let header ← row.header 3
      let selection ←
        db.readIntentSelection ⟨row.operationId⟩ header.changeScopeId header.expiresAt
      return { selection, status := header.status, recordedAt := header.recordedAt }

/-- `SELECT outpoint FROM utxos WHERE binding_operation_id = ?1 ORDER BY outpoint`. -/
def boundOutpoints (db : Database) (operationId : OperationId) : DomainResult (List OutPoint) :=
  (db.utxos.select (fun row => row.bindingOperationId = some operationId.value)
    fun a b => a.outpoint ≤ b.outpoint).mapM fun row => decodeOutpoint row.outpoint

end Database

end Txoscope
