import Txoscope.Core.Discipline
import Txoscope.Core.Racing
import Txoscope.Sqlite.Accounts
import Txoscope.Sqlite.Refinement
import Txoscope.Sqlite.Ticks

/-!
# What a statement can do to the ledger of a database

A statement either fails and leaves the database as it was, or it moves the ledger the database
holds, whatever the numbers it is given and however late the tick is (`executeStatement_moves`). A
transaction that records the tick fails from the tick `i64::MAX` on, and one that writes a larger
number fails where it writes it.
-/

namespace Txoscope

open SqliteCodec Transaction

namespace SqliteStateStore

/-! ## Transactions that run out of numbers -/

/-- The tick is the last one that can be recorded, or later. -/
abbrev TickSpent : Database → Prop := TickFrom i64Max

theorem TickSpent.of_represents {db : Database} {l : Ledger} (h : Represents db l)
    (htick : ¬ l.tick < i64Max) : TickSpent db := ⟨l.tick, h.tick, not_lt.mp htick⟩

theorem tickSpent_kept {α : Type} {m : Tx α} (h : m.Preserves (Since i64Max)) :
    m.Preserves fun db db' => TickSpent db → TickSpent db' :=
  h.mono fun _ _ hs hspent => (hs hspent).1

theorem recordOperationTx_tickSpent (id : OperationId) (phase : OperationPhase)
    (expiresAt : Option ℕ) : (recordOperationTx id phase expiresAt).FailsFrom TickSpent := by
  rintro db ⟨n, hn, hle⟩
  have hstamp : i64Max < saturatingAdd n 1 := by
    unfold saturatingAdd u64Max
    unfold i64Max at *
    omega
  unfold recordOperationTx
  rw [bind_of_ok (nextTickTx_of_ok hn)]
  have hrow : ∃ e, OperationRow.ofOperation ⟨id, phase, saturatingAdd n 1, expiresAt⟩ = .error e := by
    unfold OperationRow.ofOperation
    rw [SqlInteger.bind_of_lt hstamp]
    exact ⟨_, rfl⟩
  exact FailsFrom.bind_left (P := fun _ => True) (.value hrow) _ trivial

theorem recordOperationTx_unfit (id : OperationId) (phase : OperationPhase)
    {expiresAt : Option ℕ} (h : ¬ SqlInteger.Fits expiresAt) :
    (recordOperationTx id phase expiresAt).FailsFrom fun _ => True := by
  refine .bind (fun _ _ _ _ _ => trivial) fun updatedAt => .bind_left (.value ?_)
  cases hrow : OperationRow.ofOperation ⟨id, phase, updatedAt, expiresAt⟩ with
  | error e => exact ⟨e, rfl⟩
  | ok row =>
    obtain ⟨updated, -, hrow⟩ := Txoscope.bind_eq_ok.mp hrow
    obtain ⟨expires, hexpires, -⟩ := Txoscope.bind_eq_ok.mp hrow
    exact (h (SqlInteger.bindOption_eq_ok_iff.mp hexpires).fits).elim

theorem writeUtxoTx_unfit {u : ManagedUtxo} (h : ¬ u.Fits) :
    (writeUtxoTx u).FailsFrom fun _ => True := by
  refine .bind_left (.value ?_)
  cases hrow : UtxoRow.ofUtxo u with
  | error e => exact ⟨e, rfl⟩
  | ok row => exact (h (UtxoRow.ofUtxo_eq_ok_iff.mp hrow).fits).elim

theorem releaseOperationTx_tickSpent (id : OperationId) (phase : OperationPhase) :
    (releaseOperationTx id phase).FailsFrom TickSpent := by
  have F := since_framed i64Max
  refine .bind (tickSpent_kept (.query F.refl _)) fun outpoints => ?_
  refine .bind (tickSpent_kept (.forM F.refl F.trans (F.rewriteUtxoTx _) _)) fun _ => ?_
  refine .bind (tickSpent_kept (.execute fun db => F.deleteLocks db _)) fun _ => ?_
  exact .bind_left (recordOperationTx_tickSpent _ _ _)

theorem advanceOperationTx_tickSpent (id : OperationId) (phase : OperationPhase) :
    (advanceOperationTx id phase).FailsFrom TickSpent := by
  have F := since_framed i64Max
  refine .bind (tickSpent_kept (.query F.refl _)) fun outpoints => ?_
  refine .bind (tickSpent_kept (.forM F.refl F.trans (F.rewriteUtxoTx _) _)) fun _ => ?_
  refine .bind (tickSpent_kept (.execute fun db => F.clearExpiry db id _)) fun _ => ?_
  exact .bind_left (recordOperationTx_tickSpent _ _ _)

/-- A batch is refused if its record of the operation cannot be written. -/
theorem applyBatch_failsFrom {P : Database → Prop} {batch : StateBatch}
    (hrecord : (recordOperationTx batch.selection.operationId batch.phase
      batch.selection.expiresAt).FailsFrom P)
    (hkept : ∀ {α : Type} {m : Tx α}, m.Preserves (Since i64Max) →
      m.Preserves fun db db' => P db → P db') : (applyBatch batch).FailsFrom P := by
  have F := since_framed i64Max
  refine .bind (hkept (F.checkIntentTx batch)) fun _ => ?_
  refine .bind (hkept (F.checkPhaseTx batch)) fun _ => ?_
  refine .bind (hkept (.query F.refl _)) fun _ => ?_
  exact .bind (hkept (.forM F.refl F.trans (F.applyEffectTx batch) _)) fun _ => hrecord

/-- A release of a selected operation fails as the release of any does. -/
theorem releaseSelectedOperation_tickSpent {db : Database} (h : TickSpent db) (id : OperationId) :
    ((releaseSelectedOperation id).commit db).2 = db := by
  cases hrun : releaseSelectedOperation id db with
  | error e => rw [commit_of_error hrun]
  | ok p =>
    obtain ⟨released, db'⟩ := p
    obtain ⟨operation, _, hquery, hrest⟩ := Transaction.bind_eq_ok hrun
    obtain ⟨-, rfl⟩ := query_eq_ok hquery
    rw [commit_of_ok hrun]
    split_ifs at hrest
    · cases hrest
      rfl
    · obtain ⟨outpoints, _, hrelease, -⟩ := Transaction.bind_eq_ok hrest
      obtain ⟨e, he⟩ := releaseOperationTx_tickSpent id .rollingBack db h
      rw [he] at hrelease
      cases hrelease

theorem completeOperation_tickSpent {db : Database} (h : TickSpent db) (id : OperationId)
    (phase : OperationPhase) : ((completeOperation id phase).commit db).2 = db := by
  cases hrun : completeOperation id phase db with
  | error e => rw [commit_of_error hrun]
  | ok p =>
    obtain ⟨outpoints, db'⟩ := p
    rw [commit_of_ok hrun]
    obtain ⟨operation, _, hquery, hrun⟩ := Transaction.bind_eq_ok hrun
    obtain ⟨-, rfl⟩ := query_eq_ok hquery
    cases operation with
    | none => cases hrun
    | some operation =>
      obtain ⟨header, _, hquery, hrun⟩ := Transaction.bind_eq_ok hrun
      obtain ⟨-, rfl⟩ := query_eq_ok hquery
      cases header with
      | none => cases hrun
      | some header =>
        obtain ⟨_, _, hrequire, hrun⟩ := Transaction.bind_eq_ok hrun
        obtain ⟨-, rfl⟩ := require_eq_ok hrequire
        obtain ⟨advances, _, hvalue, hrun⟩ := Transaction.bind_eq_ok hrun
        obtain ⟨-, rfl⟩ := value_eq_ok hvalue
        cases advances with
        | false =>
          cases hrun
          rfl
        | true =>
          obtain ⟨e, he⟩ := advanceOperationTx_tickSpent id phase db h
          simp only [if_true] at hrun
          rw [he] at hrun
          cases hrun

/-! ## Transactions that may fail -/

/-- The transaction fails, or what the database holds after it is `l'`. -/
def Attempts {α : Type} (m : Tx α) (db : Database) (l' : Ledger) : Prop :=
  (∃ e, m db = .error e) ∨ ∃ a db', m db = .ok (a, db') ∧ Represents db' l'

/-- The ledger of the database is one that a ledger moves to. -/
def HoldsMoved (rules : Ledger.Rules) (replaces : Ledger → OperationSelection → Prop) (l : Ledger)
    (db : Database) : Prop :=
  ∃ l', Represents db l' ∧ Ledger.RacyMove rules replaces l l'

section Moved

variable {rules : Ledger.Rules} {replaces : Ledger → OperationSelection → Prop} {db : Database}
  {l l' : Ledger} {α β : Type}

theorem HoldsMoved.of_move {m : Ledger} (h : Represents db m) (hmove : Ledger.Move rules l m) :
    HoldsMoved rules replaces l db := ⟨m, h, .move hmove⟩

/-- Nothing has changed. -/
theorem HoldsMoved.of_eq {db' : Database} (h : Represents db l) (heq : db' = db) :
    HoldsMoved rules replaces l db' := .of_move (heq ▸ h) .refl

theorem Attempts.moved {m : Tx α} (h : Represents db l) (hm : Attempts m db l')
    (hmove : Ledger.Move rules l l') : HoldsMoved rules replaces l (m.commit db).2 := by
  rcases hm with ⟨e, hrun⟩ | ⟨a, db', hrun, h'⟩
  · rw [commit_of_error hrun]
    exact .of_eq h rfl
  · rw [commit_of_ok hrun]
    exact .of_move h' hmove

theorem Refines.moved {R : α → β → Prop} {m : Tx α} {r : DomainResult β × Ledger}
    (h : Represents db l) (hm : Refines R m db l r) (hmove : Ledger.Move rules l r.2) :
    HoldsMoved rules replaces l (m.commit db).2 := .of_move (hm.commit h).2 hmove

/-- The first part has been executed. -/
theorem Attempts.after {m : Tx α} {f : α → Tx β} {a : α} {db₁ : Database}
    (hm : m db = .ok (a, db₁)) (h : Attempts (f a) db₁ l') : Attempts (m >>= f) db l' := by
  unfold Attempts
  rw [bind_of_ok hm]
  exact h

theorem Attempts.bind {m : Tx α} {f : α → Tx β} {l₁ : Ledger} (hm : Attempts m db l₁)
    (hf : ∀ a db₁, Represents db₁ l₁ → Attempts (f a) db₁ l') : Attempts (m >>= f) db l' := by
  rcases hm with ⟨e, hrun⟩ | ⟨a, db₁, hrun, h₁⟩
  · exact .inl ⟨e, bind_of_error hrun⟩
  · exact .after hrun (hf a db₁ h₁)

/-! ### Outputs -/

theorem Represents.attemptWrite (h : Represents db l) (u : ManagedUtxo) :
    Attempts (writeUtxoTx u) db
      (l.setCell u.outpoint { l.cell u.outpoint with utxo := some u }) := by
  by_cases hfits : u.Fits
  · obtain ⟨db', hrun, h'⟩ := h.writeUtxo hfits
    exact .inr ⟨(), db', hrun, h'⟩
  · exact .inl (writeUtxoTx_unfit hfits db trivial)

theorem Represents.attemptPut (h : Represents db l) (u : ManagedUtxo) :
    Attempts (SqliteStateStore.putUtxo u) db (l.putUtxo u) := by
  refine (h.attemptWrite u).bind fun _ db₁ h₁ => ?_
  obtain ⟨db', hrun, h'⟩ := h₁.tick_of_ok
  exact .inr ⟨(), db', hrun, h'⟩

/-- An action that writes too large a number fails, if it writes at all. -/
theorem Represents.attemptAction (h : Represents db l) (a : ReconciliationAction)
    (hmanaged : (l.cell a.outpoint).LockManaged) :
    Attempts (applyActionTx a) db (l.setCell a.outpoint ((l.cell a.outpoint).act a)) := by
  by_cases hfits : a.Fits
  · obtain ⟨db', hrun, h'⟩ := h.applyAction hfits hmanaged
    exact .inr ⟨(), db', hrun, h'⟩
  · cases a with
    | discoverNew observed =>
      refine .after (h.query_utxo observed.outpoint) ?_
      cases hu : l.utxo observed.outpoint with
      | some u =>
        have hsome : (l.cell observed.outpoint).utxo.isSome = true :=
          Option.isSome_iff_exists.mpr ⟨u, hu⟩
        exact .inr ⟨(), db, rfl, h.unchanged (if_pos hsome)⟩
      | none =>
        have hunfit : ¬ (ManagedUtxo.discoverFromObserved observed.outpoint observed.accountId
            observed.scopeId observed.valueSats observed.confirmation).Fits := fun hu => hfits hu.1
        exact .inl (writeUtxoTx_unfit hunfit db trivial)
    | reportConflict outpoint message recordedAt =>
      refine .after (h.query_utxo outpoint) ?_
      cases hu : l.utxo outpoint with
      | none =>
        refine .inr ⟨(), db, rfl, h.unchanged (Cell.ext ?_ rfl)⟩
        change (l.utxo outpoint).map _ = l.utxo outpoint
        rw [hu]
        rfl
      | some u =>
        have hunfit : ¬ ManagedUtxo.Fits
            { u with observationConflict := some ⟨message, recordedAt⟩ } :=
          fun hu => hfits (hu.2 _ rfl)
        exact .inl (writeUtxoTx_unfit hunfit db trivial)
    | _ => exact (hfits trivial).elim

/-- Steps that each change one cell, one after the other. -/
theorem Represents.attemptAll {β : Type} (step : β → Tx Unit) (key : β → OutPoint)
    (f : Cell → β → Cell) (P : Cell → Prop) (hP : ∀ c b, P c → P (f c b))
    (hstep : ∀ b {db l}, Represents db l → P (l.cell (key b)) →
      Attempts (step b) db (l.setCell (key b) (f (l.cell (key b)) b)))
    (bs : List β) (h : Represents db l) (hl : ∀ o, P (l.cell o)) :
    Attempts (bs.forM step) db { l with cell := Pointwise.updateAll key f bs l.cell } := by
  induction bs generalizing db l with
  | nil => exact .inr ⟨(), db, rfl, h⟩
  | cons b bs ih =>
    refine (hstep b h (hl (key b))).bind fun _ db₁ h₁ => ih h₁ fun o => ?_
    change P (Function.update l.cell (key b) _ o)
    rw [Function.update_apply]
    split_ifs
    · exact hP _ b (hl (key b))
    · exact hl o

theorem Represents.attemptReconciliation (h : Represents db l)
    (hmanaged : ∀ o, (l.cell o).LockManaged) (plan : ReconcilePlan) :
    Attempts (SqliteStateStore.applyReconciliation plan) db (l.applyReconciliation plan) := by
  have hactions := h.attemptAll applyActionTx ReconciliationAction.outpoint Cell.act
    Cell.LockManaged (fun c a hc => hc.act a) (fun a {_ _} h hc => h.attemptAction a hc)
    plan.actions hmanaged
  have hcells : Pointwise.updateAll ReconciliationAction.outpoint Cell.act plan.actions l.cell =
      fun o => (plan.actionsOn o).foldl Cell.act (l.cell o) :=
    funext fun o => Pointwise.updateAll_apply _ _ _ _ o
  rw [hcells] at hactions
  refine hactions.bind fun _ db₁ h₁ => ?_
  obtain ⟨db', hrun, h'⟩ := h₁.tick_of_ok
  exact .inr ⟨(), db', hrun, h'⟩

/-! ### Accounts and scopes -/

/-- The row of an account is read with the scopes there are now. -/
theorem readAccount_rescoped (db db' : Database) (haccounts : db'.accounts = db.accounts)
    {id : AccountId} {account : Option Account} (h : db.readAccount id = .ok account) :
    db'.readAccount id = .ok (account.map fun a => { a with scopes := db'.accountScopes id }) := by
  unfold Database.readAccount at h ⊢
  rw [haccounts]
  cases account with
  | none => exact Table.read_eq_ok_none_iff.mpr (Table.read_eq_ok_none_iff.mp h)
  | some account =>
    obtain ⟨row, hfind, hrow⟩ := Table.read_eq_ok_some_iff.mp h
    obtain ⟨capabilities, hdecode, hrow⟩ := Txoscope.bind_eq_ok.mp hrow
    cases hrow
    refine Table.read_eq_ok_some_iff.mpr ⟨row, hfind, ?_⟩
    exact Txoscope.bind_eq_ok.mpr ⟨capabilities, hdecode, rfl⟩

theorem Represents.putAccount (h : Represents db l) (account : Account) :
    ∃ db', SqliteStateStore.putAccount account db = .ok ((), db') ∧ Represents db' { l with
      account := Function.update l.account account.id
        (some { account with scopes := db.accountScopes account.id })
      tick := saturatingAdd l.tick 1 } := by
  refine ⟨_, putAccount_of_ok h.tick account, fun id => ?_, h.scope, h.utxo, h.lock, h.operation,
    h.intent, db.readTick_write (saturatingAdd_le _ _)⟩
  dsimp only
  rw [Function.update_apply]
  split_ifs with hid
  · subst hid
    refine Table.read_eq_ok_some_iff.mpr ⟨accountRow account, ?_, ?_⟩
    · exact (Table.find_replace _ _ _).trans (if_pos rfl)
    · exact Txoscope.bind_eq_ok.mpr
        ⟨account.capabilities, decodeCapabilities_encodeCapabilities _, rfl⟩
  · have hfind : (db.accounts.replace (accountRow account)).find id.value =
        db.accounts.find id.value := by
      rw [Table.find_replace, if_neg]
      exact fun heq => hid (congrArg AccountId.mk heq)
    refine Eq.trans ?_ (h.account id)
    unfold Database.readAccount Table.read
    rw [hfind]
    rfl

theorem Represents.putScope (h : Represents db l) {scope : WalletScope} {row : AccountRow}
    (hrow : db.accounts.find scope.accountId.value = some row) :
    ∃ db', SqliteStateStore.putScope scope db = .ok ((), db') ∧
      db'.scopes = db.scopes.replace (scopeRow scope) ∧ Represents db' { l with
        account := fun id => (l.account id).map fun a => { a with scopes := db'.accountScopes id }
        scope := Function.update l.scope scope.id (some scope)
        tick := saturatingAdd l.tick 1 } := by
  obtain ⟨db', hdb⟩ : ∃ db', db' = { db with
    scopes := db.scopes.replace (scopeRow scope)
    tick := Nat.repr (saturatingAdd l.tick 1) } := ⟨_, rfl⟩
  refine ⟨db', hdb ▸ putScope_of_ok h.tick hrow, hdb ▸ rfl, ?_⟩
  subst hdb
  refine ⟨fun id => readAccount_rescoped db _ ?_ (h.account id), fun id => ?_, h.utxo, h.lock,
    h.operation, h.intent, db.readTick_write (saturatingAdd_le _ _)⟩
  · rfl
  refine (readScope_replace db scope id).trans ?_
  dsimp only
  rw [Function.update_apply]
  by_cases hid : scope.id = id
  · rw [if_pos hid, if_pos hid.symm]
  · rw [if_neg hid, if_neg (Ne.symm hid)]
    exact h.scope id

theorem Represents.putAccount_moved (h : Represents db l) (account : Account) :
    HoldsMoved rules replaces l ((SqliteStateStore.putAccount account).commit db).2 := by
  obtain ⟨db', hrun, h'⟩ := h.putAccount account
  rw [commit_of_ok hrun]
  exact .of_move h' (.quiet rfl rfl rfl)

theorem Represents.putScope_moved (h : Represents db l) (scope : WalletScope) :
    HoldsMoved rules replaces l ((SqliteStateStore.putScope scope).commit db).2 := by
  cases hrow : db.accounts.find scope.accountId.value with
  | none =>
    rw [commit_of_error (putScope_of_none hrow)]
    exact .of_eq h rfl
  | some row =>
    obtain ⟨db', hrun, -, h'⟩ := h.putScope hrow
    rw [commit_of_ok hrun]
    exact .of_move h' (.quiet rfl rfl rfl)

/-! ### Intents -/

/-- The transaction of `persist_intent` records a pending intent, whatever was recorded. -/
theorem Represents.recordIntent_moved (h : Represents db l) (selection : OperationSelection)
    (hmay : replaces l selection) :
    HoldsMoved rules replaces l ((SqliteStateStore.recordIntent selection).commit db).2 := by
  cases hrun : SqliteStateStore.recordIntent selection db with
  | error e =>
    rw [commit_of_error hrun]
    exact .of_eq h rfl
  | ok p =>
    obtain ⟨intent, db'⟩ := p
    rw [commit_of_ok hrun]
    have hintents : ∀ id, db'.getIntent id =
        .ok (Function.update l.intent selection.operationId (some intent) id) := by
      intro id
      by_cases hid : id = selection.operationId
      · rw [hid, Function.update_self]
        exact getIntent_recordIntent hrun
      · rw [Function.update_of_ne hid, getIntent_recordIntent_ne hrun hid]
        exact h.intent id
    obtain ⟨t, row, inputs, effects, -, rfl, -, -, -, rfl⟩ := recordIntent_eq_ok hrun
    exact ⟨{ l with
        intent := Function.update l.intent selection.operationId
          (some ⟨selection, .pending, saturatingAdd t 1⟩)
        tick := saturatingAdd t 1 },
      ⟨h.account, h.scope, h.utxo, h.lock, h.operation, hintents,
        db.readTick_write (saturatingAdd_le _ _)⟩,
      .replace selection _ hmay rfl rfl rfl⟩

/-- An intent is marked failed at any tick, unless a release cannot be recorded. -/
theorem Represents.attemptFail (h : Represents db l) (id : OperationId) :
    Attempts (SqliteStateStore.markIntentFailed id) db (l.markIntentFailed id).2 := by
  unfold SqliteStateStore.markIntentFailed Ledger.markIntentFailed
  cases hi : l.intent id with
  | none => exact .after (h.query_header_of_none hi) (.inl ⟨_, rfl⟩)
  | some i =>
    obtain ⟨⟨changeScopeId, status, recordedAt, expiresAt⟩, hheader, rfl, -⟩ := h.header_of_some hi
    refine .after (query_of_ok (f := fun db : Database => db.readIntentHeader id) hheader) ?_
    obtain ⟨db', hfail, h'⟩ := h.setStatus hi .failed
    dsimp only
    cases i.status with
    | committed => exact .inl ⟨_, rfl⟩
    | failed => exact .inr ⟨(), db, rfl, h⟩
    | pending =>
      refine .after (h.readPhase id) ?_
      cases l.operation id with
      | none => exact .inr ⟨(), db', hfail, h'⟩
      | some op =>
        dsimp only [Option.map_some]
        cases op.phase with
        | selected =>
          by_cases htick : l.tick < i64Max
          · obtain ⟨outpoints, db₁, hrelease, -, h₁⟩ := h.releaseOperation htick id .rollingBack
            obtain ⟨db₂, hrun, h₂⟩ := h₁.setStatus hi .failed
            exact .after hrelease (.inr ⟨(), db₂, hrun, h₂⟩)
          · obtain ⟨e, he⟩ := releaseOperationTx_tickSpent id .rollingBack db (.of_represents h htick)
            exact .inl ⟨e, bind_of_error he⟩
        | rollingBack => exact .inr ⟨(), db', hfail, h'⟩
        | constructing | signed | broadcast | awaitingConfirmation | awaitingL2Finality =>
          exact .inl ⟨_, rfl⟩

/-! ### Batches, releases and advances -/

theorem Represents.applyBatch_moved (h : Represents db l) {batch : StateBatch}
    (hphase : batch.phase = .selected)
    (hintent : (l.intent batch.selection.operationId).isSome = true) :
    HoldsMoved rules replaces l ((SqliteStateStore.applyBatch batch).commit db).2 := by
  by_cases hfits : SqlInteger.Fits batch.selection.expiresAt
  · by_cases htick : l.tick < i64Max
    · exact (h.applyBatch htick hfits).moved h (Ledger.applyBatch_move hphase hintent)
    · refine .of_eq h (FailsFrom.commit (P := TickSpent) ?_ (.of_represents h htick))
      exact applyBatch_failsFrom (recordOperationTx_tickSpent _ _ _) tickSpent_kept
  · refine .of_eq h (FailsFrom.commit (P := fun _ => True) ?_ trivial)
    exact applyBatch_failsFrom (recordOperationTx_unfit _ _ hfits) fun _ _ _ _ _ _ => trivial

theorem Represents.releaseOperation_moved (h : Represents db l) (id : OperationId) :
    HoldsMoved rules replaces l ((releaseOperationTx id .rollingBack).commit db).2 := by
  by_cases htick : l.tick < i64Max
  · obtain ⟨outpoints, db', hrun, -, h'⟩ := h.releaseOperation htick id .rollingBack
    rw [commit_of_ok hrun]
    exact .of_move h' (Ledger.releaseOperation_move id)
  · exact .of_eq h (FailsFrom.commit (releaseOperationTx_tickSpent id .rollingBack)
      (.of_represents h htick))

theorem Represents.releaseSelectedOperation_moved (h : Represents db l) (id : OperationId) :
    HoldsMoved rules replaces l ((SqliteStateStore.releaseSelectedOperation id).commit db).2 := by
  by_cases htick : l.tick < i64Max
  · obtain ⟨released, db', hrun, -, h'⟩ := h.releaseSelectedOperation htick id
    rw [commit_of_ok hrun]
    exact .of_move h' (Ledger.exec_move (c := .releaseSelectedOperation id) trivial)
  · exact .of_eq h (releaseSelectedOperation_tickSpent (.of_represents h htick) id)

theorem Represents.completeOperation_moved (h : Represents db l) (id : OperationId)
    (phase : OperationPhase) :
    HoldsMoved rules replaces l ((SqliteStateStore.completeOperation id phase).commit db).2 := by
  by_cases htick : l.tick < i64Max
  · exact (h.completeOperation htick id phase).moved h (Ledger.completeOperation_move id phase)
  · exact .of_eq h (completeOperation_tickSpent (.of_represents h htick) id phase)

end Moved

end SqliteStateStore

/-! ## Every statement -/

/-- What a client that was shown the intents of `K` may have executed for it. -/
def Statement.AllowedTo (K : Set OperationId) : Statement → Prop
  | call c _ => c.AllowedTo K
  | recordIntent _ => True
  | writeTick tick => tick ≤ u64Max

/-- The statement keeps to the rules about outputs, plans and intents. -/
def Statement.Within (rules : Ledger.Rules) (replaces : Ledger → OperationSelection → Prop)
    (l : Ledger) : Statement → Prop
  | call (.putUtxo u) _ => rules.puts l u
  | call (.applyReconciliation plan) _ => rules.plans l plan
  | recordIntent selection => replaces l selection
  | _ => True

namespace SqliteStateStore

variable {rules : Ledger.Rules} {replaces : Ledger → OperationSelection → Prop} {db : Database}
  {l : Ledger}

/-- The operations with a recorded intent. -/
def recordedIntents (db : Database) : Set OperationId := {id | ∃ i, db.getIntent id = .ok (some i)}

theorem Represents.mem_recordedIntents (h : Represents db l) {id : OperationId} :
    id ∈ recordedIntents db ↔ (l.intent id).isSome = true := by
  change (∃ i, db.getIntent id = .ok (some i)) ↔ _
  rw [h.intent id, Option.isSome_iff_exists]
  simp only [Except.ok.injEq]

/-- The inversion of one statement. -/
theorem executeStatement_moves (h : Represents db l) (hmanaged : ∀ o, (l.cell o).LockManaged)
    {st : Statement} (hallowed : st.AllowedTo (recordedIntents db))
    (hwithin : st.Within rules replaces l) :
    HoldsMoved rules replaces l (executeStatement st db).2 := by
  cases st with
  | recordIntent selection => exact h.recordIntent_moved selection hwithin
  | writeTick tick =>
    refine .of_move (m := { l with tick }) ?_ (.quiet rfl rfl rfl)
    exact ⟨h.account, h.scope, h.utxo, h.lock, h.operation, h.intent, db.readTick_write hallowed⟩
  | call c hc =>
    cases c with
    | getAccount | getScope | getUtxo | getLock | getOperation | getIntent | listUtxos
      | listOperations | listPendingIntents | currentTick => exact .of_eq h rfl
    | putAccount account => exact h.putAccount_moved account
    | putScope scope => exact h.putScope_moved scope
    | putUtxo u => exact (h.attemptPut u).moved h (.put u hwithin rfl rfl rfl)
    | advanceTick | persistIntent => exact hc.elim
    | markIntentCommitted id =>
      exact (h.markIntentCommitted id).moved h (Ledger.markIntentCommitted_move id)
    | markIntentFailed id => exact (h.attemptFail id).moved h (Ledger.markIntentFailed_move id)
    | applyBatch batch =>
      exact h.applyBatch_moved hallowed.1 (h.mem_recordedIntents.mp hallowed.2)
    | applyReconciliation plan =>
      exact (h.attemptReconciliation hmanaged plan).moved h (.reconcile plan hwithin rfl rfl rfl)
    | releaseSelectedOperation id => exact h.releaseSelectedOperation_moved id
    | releaseOperation id phase =>
      obtain rfl : phase = .rollingBack := hallowed
      exact h.releaseOperation_moved id
    | completeOperation id phase => exact h.completeOperation_moved id phase

end SqliteStateStore

end Txoscope
