import Txoscope.Sqlite.Store

/-!
# Connections that share a database

A session is one call of the store made by a connection. `Interleaving ok` are the runs of any
number of sessions on one database in which every statement meets `ok` where it is executed.

`Framed R` collects what the writes of the transactions have to respect so that every transaction
other than those on intents moves the database by `R`.
-/

namespace Txoscope

open Transaction

namespace SqliteStateStore

/-- One call; its result is for its caller. -/
def session (c : StoreCall) : Connection Unit :=
  (connection c).attempt >>= fun _ => pure ()

def IsSession (p : Connection Unit) : Prop := ∃ c, p = session c

/-- A database with the sessions in progress. -/
abbrev Shared := Database × List (Connection Unit)

/-- One step of one of the sessions. -/
abbrev SharedStep (ok : Database → Statement → Prop) : Shared → Shared → Prop :=
  Program.Admitted executeStatement ok IsSession

/-- Any number of sessions, interleaved. -/
abbrev Interleaving (ok : Database → Statement → Prop) : Shared → Shared → Prop :=
  Relation.ReflTransGen (SharedStep ok)

/-- No condition on the statements. -/
def anyStatement (_ : Database) (_ : Statement) : Prop := True

/-! ## What the transactions write -/

/-- A preorder of databases that the writes of the transactions respect. -/
structure Framed (R : Database → Database → Prop) : Prop where
  refl : ∀ db, R db db
  trans : ∀ db db' db'', R db db' → R db' db'' → R db db''
  nextTick : nextTickTx.Preserves R
  accounts : ∀ db accounts, R db { db with accounts }
  scopes : ∀ db scopes, R db { db with scopes }
  utxos : ∀ db utxos, R db { db with utxos }
  deleteLocks : ∀ db p, R db { db with locks := db.locks.deleteWhere p }
  clearExpiry : ∀ (db : Database) (id : OperationId) (h), R db { db with
    locks := db.locks.update
      (fun row => if row.operationId = id.value then { row with expiresAt := none } else row) h }
  takeLock : ∀ batch effect utxo, (takeLockTx batch effect utxo).Preserves R
  recordOperation : ∀ id phase expiresAt, (recordOperationTx id phase expiresAt).Preserves R

namespace Framed

variable {R : Database → Database → Prop} (F : Framed R)

include F

/-- A coarser preorder is respected too. -/
theorem mono {R' : Database → Database → Prop} (hR : ∀ db db', R db db' → R' db db')
    (htrans : ∀ db db' db'', R' db db' → R' db' db'' → R' db db'') : Framed R' where
  refl db := hR _ _ (F.refl db)
  trans := htrans
  nextTick := F.nextTick.mono hR
  accounts db accounts := hR _ _ (F.accounts db accounts)
  scopes db scopes := hR _ _ (F.scopes db scopes)
  utxos db utxos := hR _ _ (F.utxos db utxos)
  deleteLocks db p := hR _ _ (F.deleteLocks db p)
  clearExpiry db id h := hR _ _ (F.clearExpiry db id h)
  takeLock batch effect utxo := (F.takeLock batch effect utxo).mono hR
  recordOperation id phase expiresAt := (F.recordOperation id phase expiresAt).mono hR

theorem writeUtxoTx (utxo : ManagedUtxo) : (SqliteStateStore.writeUtxoTx utxo).Preserves R :=
  .bind F.trans (.value F.refl _) fun _ => .execute fun db => F.utxos db _

theorem rewriteUtxoTx (f : ManagedUtxo → ManagedUtxo) (outpoint : OutPoint) :
    (SqliteStateStore.rewriteUtxoTx f outpoint).Preserves R := by
  refine .bind F.trans (.query F.refl _) fun utxo => ?_
  cases utxo with
  | none => exact .throw _
  | some utxo => exact F.writeUtxoTx _

theorem modifyUtxoTx (outpoint : OutPoint) (f : ManagedUtxo → ManagedUtxo) :
    (SqliteStateStore.modifyUtxoTx outpoint f).Preserves R := by
  refine .bind F.trans (.query F.refl _) fun utxo => ?_
  cases utxo with
  | none => exact .pure F.refl _
  | some utxo => exact F.writeUtxoTx _

theorem releaseOperationTx (id : OperationId) (phase : OperationPhase) :
    (SqliteStateStore.releaseOperationTx id phase).Preserves R := by
  refine .bind F.trans (.query F.refl _) fun outpoints => ?_
  refine .bind F.trans (.forM F.refl F.trans (F.rewriteUtxoTx _) _) fun _ => ?_
  refine .bind F.trans (.execute fun db => F.deleteLocks db _) fun _ => ?_
  exact .bind F.trans (F.recordOperation _ _ _) fun _ => .pure F.refl _

theorem advanceOperationTx (id : OperationId) (phase : OperationPhase) :
    (SqliteStateStore.advanceOperationTx id phase).Preserves R := by
  refine .bind F.trans (.query F.refl _) fun outpoints => ?_
  refine .bind F.trans (.forM F.refl F.trans (F.rewriteUtxoTx _) _) fun _ => ?_
  refine .bind F.trans (.execute fun db => F.clearExpiry db id _) fun _ => ?_
  exact .bind F.trans (F.recordOperation _ _ _) fun _ => .pure F.refl _

theorem tick : (do let _ ← nextTickTx : Tx Unit).Preserves R :=
  .bind F.trans F.nextTick fun _ => .pure F.refl _

theorem putAccount (account : Account) : (SqliteStateStore.putAccount account).Preserves R :=
  .bind F.trans (.execute fun db => F.accounts db _) fun _ => F.tick

theorem putScope (scope : WalletScope) : (SqliteStateStore.putScope scope).Preserves R := by
  refine .bind F.trans (.query F.refl _) fun account => ?_
  cases account with
  | none => exact .throw _
  | some account =>
    refine .bind F.trans (.value F.refl _) fun priority => ?_
    exact .bind F.trans (.execute fun db => F.scopes db _) fun _ => F.tick

theorem putUtxo (utxo : ManagedUtxo) : (SqliteStateStore.putUtxo utxo).Preserves R :=
  .bind F.trans (F.writeUtxoTx utxo) fun _ => F.tick

theorem checkIntentTx (batch : StateBatch) :
    (SqliteStateStore.checkIntentTx batch).Preserves R := by
  refine .bind F.trans (.query F.refl _) fun header => ?_
  cases header with
  | none => exact .pure F.refl _
  | some header =>
    refine .bind F.trans (.require F.refl _ _) fun _ => ?_
    exact .bind F.trans (.query F.refl _) fun _ => .require F.refl _ _

theorem checkPhaseTx (batch : StateBatch) :
    (SqliteStateStore.checkPhaseTx batch).Preserves R := by
  refine .bind F.trans (.query F.refl _) fun phase => ?_
  cases phase with
  | none => exact .pure F.refl _
  | some phase => exact .require F.refl _ _

theorem applyActionTx (action : ReconciliationAction) :
    (SqliteStateStore.applyActionTx action).Preserves R := by
  cases action with
  | discoverNew observed =>
    refine .bind F.trans (.query F.refl _) fun utxo => ?_
    cases utxo with
    | none => exact F.writeUtxoTx _
    | some utxo => exact .pure F.refl _
  | refreshObserved => exact .pure F.refl _
  | markSpent outpoint =>
    refine .bind F.trans (.query F.refl _) fun utxo => ?_
    cases utxo with
    | none => exact .pure F.refl _
    | some utxo =>
      exact .bind F.trans (F.writeUtxoTx _) fun _ => .execute fun db => F.deleteLocks db _
  | updateOnchainState | reportConflict | clearConflict | updateAvailability | markMissing =>
    exact F.modifyUtxoTx _ _

theorem applyReconciliation (plan : ReconcilePlan) :
    (SqliteStateStore.applyReconciliation plan).Preserves R :=
  .bind F.trans (.forM F.refl F.trans F.applyActionTx _) fun _ => F.tick

theorem validateLockEffectTx (selection : OperationSelection) (phase : OperationPhase)
    (outpoint : OutPoint) :
    (SqliteStateStore.validateLockEffectTx selection phase outpoint).Preserves R := by
  refine .bind F.trans (.query F.refl _) fun utxo => ?_
  cases utxo with
  | none => exact .throw _
  | some utxo =>
    refine .bind F.trans (.query F.refl _) fun lock => ?_
    split_ifs
    · exact .pure F.refl _
    · exact .pure F.refl _
    · exact .throw _

theorem applyEffectTx (batch : StateBatch) (effect : SelectionEffect) :
    (SqliteStateStore.applyEffectTx batch effect).Preserves R := by
  refine .bind F.trans (F.validateLockEffectTx _ _ _) fun _ => ?_
  refine .bind F.trans (.query F.refl _) fun utxo => ?_
  cases utxo with
  | none => exact .throw _
  | some utxo =>
    refine .bind F.trans (.query F.refl _) fun lock => ?_
    split_ifs
    · exact .throw _
    · exact .pure F.refl _
    · exact .bind F.trans (F.writeUtxoTx _) fun _ => F.takeLock batch effect utxo

theorem applyBatch (batch : StateBatch) : (SqliteStateStore.applyBatch batch).Preserves R := by
  refine .bind F.trans (F.checkIntentTx batch) fun _ => ?_
  refine .bind F.trans (F.checkPhaseTx batch) fun _ => ?_
  refine .bind F.trans (.query F.refl _) fun _ => ?_
  refine .bind F.trans (.forM F.refl F.trans (F.applyEffectTx batch) _) fun _ => ?_
  exact F.recordOperation _ _ _

theorem releaseSelectedOperation (id : OperationId) :
    (SqliteStateStore.releaseSelectedOperation id).Preserves R := by
  refine .bind F.trans (.query F.refl _) fun operation => ?_
  split_ifs
  · exact .pure F.refl _
  · exact .bind F.trans (F.releaseOperationTx _ _) fun _ => .pure F.refl _

theorem completeOperation (id : OperationId) (phase : OperationPhase) :
    (SqliteStateStore.completeOperation id phase).Preserves R := by
  refine .bind F.trans (.query F.refl _) fun operation => ?_
  cases operation with
  | none => exact .throw _
  | some operation =>
    refine .bind F.trans (.query F.refl _) fun header => ?_
    cases header with
    | none => exact .throw _
    | some header =>
      refine .bind F.trans (.require F.refl _ _) fun _ => ?_
      refine .bind F.trans (.value F.refl _) fun advances => ?_
      cases advances with
      | false => exact .pure F.refl _
      | true => exact F.advanceOperationTx id phase

/-- Every statement but those on intents and the update of `advance_tick`. -/
theorem executeCall (hcommitted : ∀ id, (SqliteStateStore.markIntentCommitted id).Preserves R)
    (hfailed : ∀ id, (SqliteStateStore.markIntentFailed id).Preserves R) (c : StoreCall)
    (hc : c.OneStep) (db : Database) : R db (SqliteStateStore.executeCall c hc db).2 := by
  cases c with
  | getAccount | getScope | getUtxo | getLock | getOperation | getIntent | listUtxos
    | listOperations | listPendingIntents | currentTick => exact F.refl db
  | putAccount account => exact (F.putAccount account).commit F.refl db
  | putScope scope => exact (F.putScope scope).commit F.refl db
  | putUtxo utxo => exact (F.putUtxo utxo).commit F.refl db
  | advanceTick | persistIntent => exact hc.elim
  | markIntentCommitted id => exact (hcommitted id).commit F.refl db
  | markIntentFailed id => exact (hfailed id).commit F.refl db
  | applyBatch batch => exact (F.applyBatch batch).commit F.refl db
  | applyReconciliation plan => exact (F.applyReconciliation plan).commit F.refl db
  | releaseSelectedOperation id => exact (F.releaseSelectedOperation id).commit F.refl db
  | releaseOperation id phase => exact (F.releaseOperationTx id phase).commit F.refl db
  | completeOperation id phase => exact (F.completeOperation id phase).commit F.refl db

end Framed

end SqliteStateStore

end Txoscope
