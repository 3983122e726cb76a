import Txoscope.Lib.Program
import Txoscope.Lib.Transaction
import Txoscope.Sqlite.Database

/-!
# The SQLite store

The transactions of `SqliteStateStore` as the code executes them, and each call of the store as a
program over what a connection executes atomically: a read outside a transaction, a statement
outside a transaction, or a whole transaction. A transaction that fails leaves the database
unchanged.
-/

namespace Txoscope

/-- The body of a transaction. -/
abbrev Tx (α : Type) := Transaction Database DomainError α

namespace SqliteStateStore

open SqliteCodec Transaction

/-! ## Parts of transactions -/

def nextTickTx : Tx ℕ := do
  let current ← query Database.readTick
  let next := saturatingAdd current 1
  execute fun db => { db with tick := Nat.repr next }
  return next

theorem nextTickTx_of_ok {db : Database} {n : ℕ} (h : db.readTick = .ok n) :
    nextTickTx db = .ok (saturatingAdd n 1, { db with tick := Nat.repr (saturatingAdd n 1) }) :=
  bind_of_ok (query_of_ok h)

def writeUtxoTx (utxo : ManagedUtxo) : Tx Unit := do
  let row ← value (UtxoRow.ofUtxo utxo)
  execute fun db => { db with utxos := db.utxos.replace row }

/-- Reads an output the code has listed before, and writes it back changed. -/
def rewriteUtxoTx (f : ManagedUtxo → ManagedUtxo) (outpoint : OutPoint) : Tx Unit := do
  match ← query fun db => db.getUtxo outpoint with
  | none => throw (.utxoNotFound outpoint)
  | some utxo => writeUtxoTx (f utxo)

/-- Writes an output back changed, if it is managed. -/
def modifyUtxoTx (outpoint : OutPoint) (f : ManagedUtxo → ManagedUtxo) : Tx Unit := do
  match ← query fun db => db.getUtxo outpoint with
  | none => return ()
  | some utxo => writeUtxoTx (f utxo)

def deleteLockTx (outpoint : OutPoint) : Tx Unit :=
  execute fun db => { db with
    locks := db.locks.deleteWhere fun row => row.outpoint = outpoint.display }

/-- `INSERT OR REPLACE INTO operations` at the next tick. -/
def recordOperationTx (operationId : OperationId) (phase : OperationPhase)
    (expiresAt : Option ℕ) : Tx Unit := do
  let updatedAt ← nextTickTx
  let row ← value (OperationRow.ofOperation { operationId, phase, updatedAt, expiresAt })
  execute fun db => { db with operations := db.operations.replace row }

def releaseOperationTx (operationId : OperationId) (releasedPhase : OperationPhase) :
    Tx (List OutPoint) := do
  let outpoints ← query fun db => db.boundOutpoints operationId
  outpoints.forM (rewriteUtxoTx ManagedUtxo.releaseBinding)
  execute fun db => { db with
    locks := db.locks.deleteWhere fun row => row.operationId = operationId.value }
  recordOperationTx operationId releasedPhase none
  return outpoints

/-! ## Transactions -/

def putAccount (account : Account) : Tx Unit := do
  let row : AccountRow := {
    accountId := account.id.value
    name := account.name
    capabilities := encodeCapabilities account.capabilities }
  execute fun db => { db with accounts := db.accounts.replace row }
  let _ ← nextTickTx

def putScope (scope : WalletScope) : Tx Unit := do
  match ← query fun db => .ok (db.accounts.find scope.accountId.value) with
  | none => throw (.accountNotFound scope.accountId)
  | some _ =>
    let priority ← value (SqlInteger.bind scope.priority.toNat)
    let row : ScopeRow := {
      scopeId := scope.id.value
      accountId := scope.accountId.value
      descriptorRef := scope.descriptorRef
      derivationScope := scope.derivationScope
      capabilities := encodeCapabilities scope.capabilities
      priority }
    execute fun db => { db with scopes := db.scopes.replace row }
    let _ ← nextTickTx

def putUtxo (utxo : ManagedUtxo) : Tx Unit := do
  writeUtxoTx utxo
  let _ ← nextTickTx

/-! ### Intents -/

def uniqueFailed (columns : String) : DomainError :=
  .storage ("UNIQUE constraint failed: " ++ columns)

def inputRow (operationId : OperationId) (position : ℕ) (outpoint : OutPoint) :
    IntentInputRow :=
  ⟨operationId.value, position, outpoint.display⟩

def effectRow (operationId : OperationId) (position : ℕ) (effect : SelectionEffect) :
    IntentEffectRow :=
  ⟨operationId.value, position, "lock_utxo", effect.outpoint.display, encode effect.purpose⟩

/-- One `INSERT INTO intent_inputs` for each input. -/
def insertInputs (operationId : OperationId) (outpoints : List OutPoint) : Tx Unit := do
  let rows := Table.numbered (inputRow operationId) 0 outpoints
  match ← query fun db => .ok (db.intentInputs.insertAll rows) with
  | none => throw (uniqueFailed "intent_inputs.operation_id, intent_inputs.position")
  | some intentInputs => execute fun db => { db with intentInputs }

/-- One `INSERT INTO intent_effects` for each effect. -/
def insertEffects (operationId : OperationId) (effects : List SelectionEffect) : Tx Unit := do
  let rows := Table.numbered (effectRow operationId) 0 effects
  match ← query fun db => .ok (db.intentEffects.insertAll rows) with
  | none => throw (uniqueFailed "intent_effects.operation_id, intent_effects.position")
  | some intentEffects => execute fun db => { db with intentEffects }

/-- The row of a pending intent. -/
def pendingRow (selection : OperationSelection) (recordedAt : ℕ) : DomainResult IntentRow := do
  let recordedAt ← SqlInteger.bind recordedAt
  let expiresAt ← SqlInteger.bindOption selection.expiresAt
  return {
    operationId := selection.operationId.value
    changeScopeId := selection.changeScopeId.value
    status := encode IntentStatus.pending
    recordedAt
    expiresAt }

/-- The row of an intent replaced, and its inputs and effects deleted. -/
def replaceIntent (selection : OperationSelection) (row : IntentRow) (db : Database) : Database :=
  { db with
    intents := db.intents.replace row
    intentInputs := db.intentInputs.deleteWhere
      fun row => row.operationId = selection.operationId.value
    intentEffects := db.intentEffects.deleteWhere
      fun row => row.operationId = selection.operationId.value }

/-- The transaction of `persist_intent`. It does not look for a recorded intent again: that was
done before it was opened. -/
def recordIntent (selection : OperationSelection) : Tx OperationIntent := do
  let recordedAt ← nextTickTx
  let row ← value (pendingRow selection recordedAt)
  execute (replaceIntent selection row)
  insertInputs selection.operationId selection.selectedOutpoints
  insertEffects selection.operationId selection.effects
  return { selection, status := .pending, recordedAt }

/-- `UPDATE intents SET status = ?1 WHERE operation_id = ?2`. -/
def withStatus (operationId : OperationId) (status : IntentStatus) (db : Database) : Database :=
  { db with
    intents := db.intents.update
      (fun row => if row.operationId = operationId.value then { row with status := encode status }
        else row)
      (fun row => by split_ifs <;> rfl) }

def setStatusTx (operationId : OperationId) (status : IntentStatus) : Tx Unit :=
  execute (withStatus operationId status)

def markIntentCommitted (operationId : OperationId) : Tx Unit := do
  match ← query fun db => db.readIntentHeader operationId with
  | none => throw (.intentNotFound operationId)
  | some header =>
    require (header.status ≠ .failed) (.intentNotPending operationId)
    setStatusTx operationId .committed
    let _ ← nextTickTx

def markIntentFailed (operationId : OperationId) : Tx Unit := do
  match ← query fun db => db.readIntentHeader operationId with
  | none => throw (.intentNotFound operationId)
  | some header =>
    match header.status with
    | .committed => throw (.intentNotPending operationId)
    | .failed => return ()
    | .pending =>
      match ← query fun db => db.readPhase operationId with
      | some .selected =>
        let _ ← releaseOperationTx operationId .rollingBack
        setStatusTx operationId .failed
        let _ ← nextTickTx
      | none | some .rollingBack =>
        setStatusTx operationId .failed
        let _ ← nextTickTx
      | some phase => throw (.invalidOperationTransition operationId phase .rollingBack)

/-! ### Batches -/

/-- The check of a batch against the recorded intent. -/
def checkIntentTx (batch : StateBatch) : Tx Unit := do
  let operationId := batch.selection.operationId
  match ← query fun db => db.readIntentHeader operationId with
  | none => return ()
  | some header =>
    require (header.status ≠ .failed) (.intentNotPending operationId)
    let recorded ← query fun db =>
      db.readIntentSelection operationId header.changeScopeId header.expiresAt
    require (recorded = batch.selection) (.intentConflict operationId)

/-- The check of a batch against the recorded operation. -/
def checkPhaseTx (batch : StateBatch) : Tx Unit := do
  let operationId := batch.selection.operationId
  match ← query fun db => db.readPhase operationId with
  | none => return ()
  | some phase =>
    require (phase = batch.phase ∧ phase ≠ .rollingBack)
      (.invalidOperationTransition operationId phase batch.phase)

def validateLockEffectTx (selection : OperationSelection) (phase : OperationPhase)
    (outpoint : OutPoint) : Tx Unit := do
  match ← query fun db => db.getUtxo outpoint with
  | none => throw (.utxoNotFound outpoint)
  | some utxo =>
    let lock ← query fun db => db.getLock outpoint
    if utxo.canBeLocked lock.isSome then return ()
    else if alreadyApplied selection.operationId phase utxo lock then return ()
    else throw (lockRefusal utxo lock.isSome outpoint)

/-- The lock of an effect, created at the tick the batch will be recorded at. -/
def takeLockTx (batch : StateBatch) (effect : SelectionEffect) (utxo : ManagedUtxo) :
    Tx Unit := do
  let tick ← query Database.readTick
  let row ← value (LockRow.ofLock effect.outpoint (newLock batch tick utxo effect.purpose))
  execute fun db => { db with locks := db.locks.replace row }

def applyEffectTx (batch : StateBatch) (effect : SelectionEffect) : Tx Unit := do
  validateLockEffectTx batch.selection batch.phase effect.outpoint
  match ← query fun db => db.getUtxo effect.outpoint with
  | none => throw (.utxoNotFound effect.outpoint)
  | some utxo =>
    let existingLock ← query fun db => db.getLock effect.outpoint
    if alreadyApplied batch.selection.operationId batch.phase utxo existingLock then
      if existingLock.any (lockDiffers batch utxo effect.purpose) then
        throw (.intentConflict batch.selection.operationId)
    else
      writeUtxoTx (utxo.reserve batch.selection.operationId batch.phase)
      takeLockTx batch effect utxo

def applyBatch (batch : StateBatch) : Tx Unit := do
  checkIntentTx batch
  checkPhaseTx batch
  query fun db => batch.selection.validateCapabilities (m := DomainResult) db.readAccount
    db.readScope db.getUtxo
  batch.selection.effects.forM (applyEffectTx batch)
  recordOperationTx batch.selection.operationId batch.phase batch.selection.expiresAt

/-! ### Reconciliation -/

def applyActionTx : ReconciliationAction → Tx Unit
  | .discoverNew observed => do
    match ← query fun db => db.getUtxo observed.outpoint with
    | some _ => return ()
    | none =>
      writeUtxoTx (ManagedUtxo.discoverFromObserved observed.outpoint observed.accountId
        observed.scopeId observed.valueSats observed.confirmation)
  | .refreshObserved _ => return ()
  | .updateOnchainState outpoint newState =>
    modifyUtxoTx outpoint fun utxo =>
      if !utxo.onchainState.isSpending then { utxo with onchainState := newState } else utxo
  | .markSpent outpoint _ => do
    match ← query fun db => db.getUtxo outpoint with
    | none => return ()
    | some utxo =>
      writeUtxoTx utxo.markSpent
      deleteLockTx outpoint
  | .reportConflict outpoint message recordedAt =>
    modifyUtxoTx outpoint fun utxo => { utxo with observationConflict := some ⟨message, recordedAt⟩ }
  | .clearConflict outpoint =>
    modifyUtxoTx outpoint fun utxo => { utxo with observationConflict := none }
  | .updateAvailability outpoint availability =>
    modifyUtxoTx outpoint fun utxo => { utxo with availability }
  | .markMissing outpoint => modifyUtxoTx outpoint ManagedUtxo.markMissing

def applyReconciliation (plan : ReconcilePlan) : Tx Unit := do
  plan.actions.forM applyActionTx
  let _ ← nextTickTx

/-! ### Lifecycle -/

def releaseSelectedOperation (operationId : OperationId) : Tx (Option (List OutPoint)) := do
  let operation ← query fun db => db.readOperation operationId
  if !operation.any (·.phase = .selected) then return none
  let released ← releaseOperationTx operationId .rollingBack
  return some released

/-- The write of `complete_operation` after its checks. -/
def advanceOperationTx (operationId : OperationId) (completedPhase : OperationPhase) :
    Tx (List OutPoint) := do
  let outpoints ← query fun db => db.boundOutpoints operationId
  outpoints.forM (rewriteUtxoTx fun utxo => utxo.advanceBinding completedPhase)
  execute fun db => { db with
    locks := db.locks.update
      (fun row => if row.operationId = operationId.value then { row with expiresAt := none }
        else row)
      (fun row => by split_ifs <;> rfl) }
  recordOperationTx operationId completedPhase none
  return outpoints

def completeOperation (operationId : OperationId) (completedPhase : OperationPhase) :
    Tx (List OutPoint) := do
  match ← query fun db => db.readOperation operationId with
  | none => throw (.operationNotFound operationId)
  | some operation =>
    match ← query fun db => db.readIntentHeader operationId with
    | none => throw (.intentNotFound operationId)
    | some header =>
      require (header.status = .committed) (.intentNotCommitted operationId)
      if ← value (operation.validateAdvance completedPhase) then
        advanceOperationTx operationId completedPhase
      else return []

/-! ## What a connection executes -/

end SqliteStateStore

/-- The calls that are one read or one transaction. -/
def StoreCall.OneStep : StoreCall → Prop
  | persistIntent _ | advanceTick _ => False
  | _ => True

/-- What a connection executes atomically. -/
inductive Statement where
  /-- A call that is one read or one transaction. -/
  | call (c : StoreCall) (h : c.OneStep)
  /-- The transaction of `persist_intent`. -/
  | recordIntent (selection : OperationSelection)
  /-- The update of `advance_tick`. -/
  | writeTick (tick : ℕ)

abbrev Statement.Out : Statement → Type
  | call c _ => c.Out
  | recordIntent _ => OperationIntent
  | writeTick _ => Unit

namespace SqliteStateStore

open Transaction

/-- The calls that are one read or one transaction. -/
def executeCall : (c : StoreCall) → c.OneStep → Database → DomainResult c.Out × Database
  | .getAccount id, _, db => (db.readAccount id, db)
  | .getScope id, _, db => (db.readScope id, db)
  | .getUtxo o, _, db => (db.getUtxo o, db)
  | .getLock o, _, db => (db.getLock o, db)
  | .getOperation id, _, db => (db.readOperation id, db)
  | .getIntent id, _, db => (db.getIntent id, db)
  | .listUtxos, _, db => (db.listUtxos, db)
  | .listOperations, _, db => (db.listOperations, db)
  | .listPendingIntents, _, db => (db.listPendingIntents, db)
  | .currentTick, _, db => (db.readTick, db)
  | .putAccount account, _, db => (putAccount account).commit db
  | .putScope scope, _, db => (putScope scope).commit db
  | .putUtxo utxo, _, db => (putUtxo utxo).commit db
  | .markIntentCommitted id, _, db => (markIntentCommitted id).commit db
  | .markIntentFailed id, _, db => (markIntentFailed id).commit db
  | .applyBatch batch, _, db => (applyBatch batch).commit db
  | .applyReconciliation plan, _, db => (applyReconciliation plan).commit db
  | .releaseSelectedOperation id, _, db => (releaseSelectedOperation id).commit db
  | .releaseOperation id phase, _, db => (releaseOperationTx id phase).commit db
  | .completeOperation id phase, _, db => (completeOperation id phase).commit db

/-- One atomic step of a connection. -/
def executeStatement : (st : Statement) → Database → DomainResult st.Out × Database
  | .call c h, db => executeCall c h db
  | .recordIntent selection, db => (recordIntent selection).commit db
  | .writeTick tick, db => (.ok (), { db with tick := Nat.repr tick })

/-- A program of a connection. -/
abbrev Connection (α : Type) := Program Statement Statement.Out DomainError α

/-- A call that is one step. -/
def oneStep (c : StoreCall) (h : c.OneStep) : Connection c.Out :=
  Program.invoke (Statement.call c h)

/-- What `persist_intent` does with the answer of its check. -/
def persistChecked (selection : OperationSelection) :
    Option OperationIntent → Connection OperationIntent
  | some existing =>
    if existing.selection ≠ selection then throw (.intentConflict selection.operationId)
    else pure existing
  | none => Program.invoke (Statement.recordIntent selection)

/-- `persist_intent`: the check, and then the transaction. -/
def persistIntent (selection : OperationSelection) : Connection OperationIntent := do
  let existing ← oneStep (.getIntent selection.operationId) trivial
  persistChecked selection existing

/-- `advance_tick`: the read, and then the update. -/
def advanceTick (delta : ℕ) : Connection Unit := do
  let tick ← oneStep .currentTick trivial
  Program.invoke (Statement.writeTick (saturatingAdd tick (max delta 1)))

/-- Each call of the store as what a connection executes for it. -/
def connection : (c : StoreCall) → Connection c.Out
  | .persistIntent selection => persistIntent selection
  | .advanceTick delta => advanceTick delta
  | .getAccount id => oneStep (.getAccount id) trivial
  | .getScope id => oneStep (.getScope id) trivial
  | .getUtxo o => oneStep (.getUtxo o) trivial
  | .getLock o => oneStep (.getLock o) trivial
  | .getOperation id => oneStep (.getOperation id) trivial
  | .getIntent id => oneStep (.getIntent id) trivial
  | .listUtxos => oneStep .listUtxos trivial
  | .listOperations => oneStep .listOperations trivial
  | .listPendingIntents => oneStep .listPendingIntents trivial
  | .currentTick => oneStep .currentTick trivial
  | .putAccount account => oneStep (.putAccount account) trivial
  | .putScope scope => oneStep (.putScope scope) trivial
  | .putUtxo utxo => oneStep (.putUtxo utxo) trivial
  | .markIntentCommitted id => oneStep (.markIntentCommitted id) trivial
  | .markIntentFailed id => oneStep (.markIntentFailed id) trivial
  | .applyBatch batch => oneStep (.applyBatch batch) trivial
  | .applyReconciliation plan => oneStep (.applyReconciliation plan) trivial
  | .releaseSelectedOperation id => oneStep (.releaseSelectedOperation id) trivial
  | .releaseOperation id phase => oneStep (.releaseOperation id phase) trivial
  | .completeOperation id phase => oneStep (.completeOperation id phase) trivial

/-- A call made while no other connection is active. -/
def exec : StoreExec Database := fun c db => (connection c).run executeStatement db

end SqliteStateStore

end Txoscope
