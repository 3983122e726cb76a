import Txoscope.Sqlite.Representation

/-!
# The SQLite store refines the ledger

Each transaction returns what the same call on the ledger returns, and leaves a database that holds
the resulting ledger (`exec_refines`). The numbers it writes have to fit the integer columns, and a
lock without a managed output would outlive a spend.
-/

namespace Txoscope

open SqliteCodec Transaction

namespace SqliteStateStore

/-- The transaction does to the database what a call does to the ledger it holds: it succeeds with
an answer related by `R`, or fails with the same error. -/
inductive Refines {α β : Type} (R : α → β → Prop) (m : Tx α) (db : Database) (l : Ledger) :
    DomainResult β × Ledger → Prop
  | ok {a : α} {b : β} {db' : Database} {l' : Ledger} (hrun : m db = .ok (a, db')) (hR : R a b)
      (h' : Represents db' l') : Refines R m db l (.ok b, l')
  | error {e : DomainError} (hrun : m db = .error e) : Refines R m db l (.error e, l)

theorem Refines.commit {α β : Type} {R : α → β → Prop} {m : Tx α} {db : Database} {l : Ledger}
    {r : DomainResult β × Ledger} (h : Refines R m db l r) (hrep : Represents db l) :
    ResultAgree R (m.commit db).1 r.1 ∧ Represents (m.commit db).2 r.2 := by
  cases h with
  | ok hrun hR h' =>
    rw [commit_of_ok hrun]
    exact ⟨hR, h'⟩
  | error hrun =>
    rw [commit_of_error hrun]
    exact ⟨rfl, hrep⟩

/-- The first part has been executed. -/
theorem Refines.after {α β γ : Type} {R : α → β → Prop} {m : Tx γ} {f : γ → Tx α}
    {db db₁ : Database} {l : Ledger} {c : γ} {r : DomainResult β × Ledger}
    (hm : m db = .ok (c, db₁)) (h : Refines R (f c) db₁ l r) : Refines R (m >>= f) db l r := by
  cases h with
  | ok hrun hR h' => exact .ok ((bind_of_ok hm).trans hrun) hR h'
  | error hrun => exact .error ((bind_of_ok hm).trans hrun)

/-! ## Recording an intent -/

theorem insertInputs_of_some {db : Database} {id : OperationId} {outpoints : List OutPoint}
    {inputs : Table IntentInputRow (String × ℕ) IntentInputRow.key}
    (h : db.intentInputs.insertAll (Table.numbered (inputRow id) 0 outpoints) = some inputs) :
    insertInputs id outpoints db = .ok ((), { db with intentInputs := inputs }) := by
  unfold insertInputs
  rw [bind_of_ok (query_of_ok (f := fun db : Database => (.ok (db.intentInputs.insertAll
    (Table.numbered (inputRow id) 0 outpoints)) : DomainResult _)) (congrArg Except.ok h))]
  rfl

theorem insertEffects_of_some {db : Database} {id : OperationId} {effects : List SelectionEffect}
    {rows : Table IntentEffectRow (String × ℕ) IntentEffectRow.key}
    (h : db.intentEffects.insertAll (Table.numbered (effectRow id) 0 effects) = some rows) :
    insertEffects id effects db = .ok ((), { db with intentEffects := rows }) := by
  unfold insertEffects
  rw [bind_of_ok (query_of_ok (f := fun db : Database => (.ok (db.intentEffects.insertAll
    (Table.numbered (effectRow id) 0 effects)) : DomainResult _)) (congrArg Except.ok h))]
  rfl

/-- An intent is recorded as long as its numbers fit: the rows of an earlier one are deleted, so the
numbered rows can be inserted. -/
theorem recordIntent_of_fits {db : Database} {n : ℕ} (hread : db.readTick = .ok n)
    (hn : n < i64Max) {selection : OperationSelection}
    (hfits : SqlInteger.Fits selection.expiresAt) :
    ∃ db', recordIntent selection db =
      .ok (⟨selection, .pending, saturatingAdd n 1⟩, db') := by
  have hrecorded : saturatingAdd n 1 ≤ i64Max := by
    unfold saturatingAdd
    omega
  obtain ⟨expiresAt, hexpires, -⟩ := SqlInteger.bindOption_of_fits hfits
  have hrow : ∃ row, pendingRow selection (saturatingAdd n 1) = .ok row := by
    unfold pendingRow
    rw [SqlInteger.bind_of_le hrecorded, hexpires]
    exact ⟨_, rfl⟩
  obtain ⟨row, hrow⟩ := hrow
  obtain ⟨inputs, hinputs⟩ : ∃ inputs, (db.intentInputs.deleteWhere fun row =>
      row.operationId = selection.operationId.value).insertAll
        (Table.numbered (inputRow selection.operationId) 0 selection.selectedOutpoints) =
          some inputs := by
    refine Table.insertAll_numbered (fun _ _ _ hkey => ?_) (fun _ _ _ _ hkey => ?_) 0 _
    · exact decide_eq_true (congrArg Prod.fst hkey)
    · exact congrArg Prod.snd hkey
  obtain ⟨effects, heffects⟩ : ∃ effects, (db.intentEffects.deleteWhere fun row =>
      row.operationId = selection.operationId.value).insertAll
        (Table.numbered (effectRow selection.operationId) 0 selection.effects) = some effects := by
    refine Table.insertAll_numbered (fun _ _ _ hkey => ?_) (fun _ _ _ _ hkey => ?_) 0 _
    · exact decide_eq_true (congrArg Prod.fst hkey)
    · exact congrArg Prod.snd hkey
  unfold recordIntent
  rw [bind_of_ok (nextTickTx_of_ok hread), bind_of_ok (value_of_ok hrow _)]
  exact ⟨_, (bind_of_ok (m := execute _) rfl).trans
    ((bind_of_ok (insertInputs_of_some hinputs)).trans
      (bind_of_ok (insertEffects_of_some heffects)))⟩

/-- A tick above `i64::MAX` is not recorded. -/
theorem recordIntent_of_le {db : Database} {n : ℕ} (hread : db.readTick = .ok n)
    (hn : i64Max ≤ n) (selection : OperationSelection) :
    recordIntent selection db =
      .error (.storage "out of range integral type conversion attempted") := by
  have hrecorded : i64Max < saturatingAdd n 1 := by
    unfold saturatingAdd u64Max
    unfold i64Max at *
    omega
  unfold recordIntent
  rw [bind_of_ok (nextTickTx_of_ok hread)]
  refine bind_of_error (query_of_error (f := fun _ => pendingRow selection (saturatingAdd n 1)) ?_)
  unfold pendingRow
  rw [SqlInteger.bind_of_lt hrecorded]
  rfl

namespace Represents

variable {db : Database} {l : Ledger} {o : OutPoint} {u : ManagedUtxo} {id : OperationId}

/-! ## Intents -/

theorem header_of_none (h : Represents db l) (hi : l.intent id = none) :
    db.readIntentHeader id = .ok none := by
  have hget := (h.intent id).trans (congrArg Except.ok hi)
  obtain ⟨header, hheader, hrest⟩ := Txoscope.bind_eq_ok.mp hget
  cases header with
  | none => exact hheader
  | some header =>
    obtain ⟨selection, -, hsome⟩ := Txoscope.bind_eq_ok.mp hrest
    cases hsome

theorem header_of_some (h : Represents db l) {i : OperationIntent} (hi : l.intent id = some i) :
    ∃ header, db.readIntentHeader id = .ok (some header) ∧ header.status = i.status ∧
      db.readIntentSelection id header.changeScopeId header.expiresAt = .ok i.selection := by
  obtain ⟨header, hheader, hselection, hstatus, -⟩ :=
    getIntent_eq_some_iff.mp ((h.intent id).trans (congrArg Except.ok hi))
  exact ⟨header, hheader, hstatus.symm, hselection⟩

/-- The status of a recorded intent is set, and the tick moves on. -/
theorem setStatus (h : Represents db l) {i : OperationIntent} (hi : l.intent id = some i)
    (status : IntentStatus) :
    ∃ db', (do setStatusTx id status; let _ ← nextTickTx : Tx Unit) db = .ok ((), db') ∧
      Represents db' (l.setStatus id i status) := by
  have hset : Represents (withStatus id status db)
      { l with intent := Function.update l.intent id (some { i with status }) } := by
    refine ⟨h.account, h.scope, h.utxo, h.lock, h.operation, fun id' => ?_, h.tick⟩
    change _ = Except.ok (Function.update l.intent id _ id')
    by_cases hid : id' = id
    · subst hid
      rw [Function.update_self]
      exact getIntent_withStatus ((h.intent id').trans (congrArg Except.ok hi)) status
    · rw [Function.update_of_ne hid, getIntent_withStatus_ne hid]
      exact h.intent id'
  obtain ⟨db', hrun, h'⟩ := hset.tick_of_ok
  exact ⟨db', (bind_of_ok (m := setStatusTx id status) rfl).trans hrun, h'⟩

theorem query_header_of_none (h : Represents db l) (hi : l.intent id = none) :
    query (fun db : Database => db.readIntentHeader id) db = .ok (none, db) :=
  query_of_ok (f := fun db : Database => db.readIntentHeader id) (h.header_of_none hi)

theorem markIntentCommitted (h : Represents db l) (id : OperationId) :
    Refines Eq (markIntentCommitted id) db l (l.markIntentCommitted id) := by
  unfold SqliteStateStore.markIntentCommitted Ledger.markIntentCommitted
  cases hi : l.intent id with
  | none => exact .after (h.query_header_of_none hi) (.error rfl)
  | some i =>
    obtain ⟨header, hheader, hstatus, -⟩ := h.header_of_some hi
    refine .after (query_of_ok (f := fun db : Database => db.readIntentHeader id) hheader) ?_
    dsimp only
    rw [← hstatus]
    split_ifs with hfailed
    · exact .error (bind_of_error (require_of_neg (not_not.mpr hfailed) _ _))
    · obtain ⟨db', hrun, h'⟩ := h.setStatus hi .committed
      exact .after (require_of_pos hfailed _ _) (.ok hrun rfl h')

theorem readPhase (h : Represents db l) (id : OperationId) :
    query (fun db : Database => db.readPhase id) db =
      .ok ((l.operation id).map (·.phase), db) := by
  refine query_of_ok (f := fun db : Database => db.readPhase id) ?_
  cases hop : l.operation id with
  | none => exact Table.read_eq_ok_none_iff.mpr (h.operation.none_iff.mp hop)
  | some op =>
    obtain ⟨row, hfind, hrow⟩ := h.operation.some_iff.mp hop
    exact Table.read_eq_ok_some_iff.mpr ⟨row, hfind, (OperationRow.toOperation_eq_ok hrow).2⟩

theorem markIntentFailed (h : Represents db l) (htick : l.tick < i64Max) (id : OperationId) :
    Refines Eq (markIntentFailed id) db l (l.markIntentFailed id) := by
  unfold SqliteStateStore.markIntentFailed Ledger.markIntentFailed
  cases hi : l.intent id with
  | none => exact .after (h.query_header_of_none hi) (.error rfl)
  | some i =>
    obtain ⟨⟨changeScopeId, status, recordedAt, expiresAt⟩, hheader, rfl, -⟩ := h.header_of_some hi
    refine .after (query_of_ok (f := fun db : Database => db.readIntentHeader id) hheader) ?_
    obtain ⟨db', hfail, h'⟩ := h.setStatus hi .failed
    dsimp only
    cases i.status with
    | committed => exact .error rfl
    | failed => exact .ok rfl rfl h
    | pending =>
      refine .after (h.readPhase id) ?_
      cases l.operation id with
      | none => exact .ok hfail rfl h'
      | some op =>
        dsimp only [Option.map_some]
        cases op.phase with
        | selected =>
          obtain ⟨outpoints, db₁, hrelease, -, h₁⟩ := h.releaseOperation htick id .rollingBack
          obtain ⟨db₂, hrun, h₂⟩ := h₁.setStatus hi .failed
          exact .after hrelease (.ok hrun rfl h₂)
        | rollingBack => exact .ok hfail rfl h'
        | constructing | signed | broadcast | awaitingConfirmation | awaitingL2Finality =>
          exact .error rfl

/-- The transaction of `persist_intent` records a pending intent. -/
theorem recordIntent (h : Represents db l) (htick : l.tick < i64Max)
    {selection : OperationSelection} (hfits : SqlInteger.Fits selection.expiresAt)
    (hi : l.intent selection.operationId = none) :
    Refines Eq (recordIntent selection) db l (l.persistIntent selection) := by
  obtain ⟨db', hrun⟩ := recordIntent_of_fits h.tick htick hfits
  unfold Ledger.persistIntent
  rw [hi]
  refine .ok hrun rfl ?_
  have hintents : ∀ id, db'.getIntent id = .ok (Function.update l.intent selection.operationId
      (some ⟨selection, .pending, saturatingAdd l.tick 1⟩) id) := by
    intro id
    by_cases hid : id = selection.operationId
    · rw [hid, Function.update_self]
      exact getIntent_recordIntent hrun
    · rw [Function.update_of_ne hid, getIntent_recordIntent_ne hrun hid]
      exact h.intent id
  obtain ⟨t, row, inputs, effects, hread, -, -, -, -, rfl⟩ := recordIntent_eq_ok hrun
  exact ⟨h.account, h.scope, h.utxo, h.lock, h.operation, hintents,
    db.readTick_write (saturatingAdd_le _ _)⟩

/-! ## Batches -/

/-- The check against the recorded operation; `r` is its answer on the ledger. -/
theorem checkPhase (h : Represents db l) {batch : StateBatch} {r : DomainResult Unit}
    (hnone : l.operation batch.selection.operationId = none → r = .ok ())
    (hsome : ∀ op, l.operation batch.selection.operationId = some op →
      r = if op.phase ≠ batch.phase ∨ op.phase = .rollingBack then
        .error (.invalidOperationTransition batch.selection.operationId op.phase batch.phase)
        else .ok ()) :
    (checkPhaseTx batch).Simulates (fun _ db' _ => db' = db) db r := by
  unfold checkPhaseTx
  refine .after (h.readPhase batch.selection.operationId) ?_
  cases hop : l.operation batch.selection.operationId with
  | none =>
    rw [hnone hop]
    exact .of_ok rfl rfl
  | some op =>
    rw [hsome op hop]
    split_ifs with hphase
    · exact .of_error (require_of_neg (by tauto) _ _)
    · exact .of_ok (require_of_pos (by tauto) _ _) rfl

/-- The checks against the recorded intent and operation. -/
theorem checkBatch (h : Represents db l) (batch : StateBatch) :
    (do checkIntentTx batch; checkPhaseTx batch : Tx Unit).Simulates (fun _ db' _ => db' = db) db
      (l.checkBatch batch) := by
  unfold checkIntentTx Ledger.checkBatch
  cases hi : l.intent batch.selection.operationId with
  | none =>
    have hrun : checkIntentTx batch db = .ok ((), db) := bind_of_ok (h.query_header_of_none hi)
    exact .after hrun (h.checkPhase (fun hop => by rw [hop]; rfl) fun op hop => by rw [hop]; rfl)
  | some i =>
    obtain ⟨header, hheader, hstatus, hselection⟩ := h.header_of_some hi
    have hquery := query_of_ok (f := fun db : Database =>
      db.readIntentHeader batch.selection.operationId) hheader
    have hrecorded := query_of_ok (f := fun db : Database => db.readIntentSelection
      batch.selection.operationId header.changeScopeId header.expiresAt) hselection
    by_cases hfailed : i.status = .failed
    · simp only [if_pos hfailed]
      refine .of_error (bind_of_error ((bind_of_ok hquery).trans ?_))
      exact bind_of_error (require_of_neg (by rw [hstatus]; exact not_not.mpr hfailed) _ _)
    · have hpending := require_of_pos (p := header.status ≠ .failed) (by rwa [hstatus])
        (DomainError.intentNotPending batch.selection.operationId) db
      by_cases hsame : i.selection = batch.selection
      · have hrun : checkIntentTx batch db = .ok ((), db) := (bind_of_ok hquery).trans
          ((bind_of_ok hpending).trans ((bind_of_ok hrecorded).trans (require_of_pos hsame _ _)))
        simp only [if_neg hfailed, if_neg (not_not.mpr hsame)]
        exact .after hrun
          (h.checkPhase (fun hop => by rw [hop]; rfl) fun op hop => by rw [hop]; rfl)
      · simp only [if_neg hfailed, if_pos hsame]
        exact .of_error (bind_of_error ((bind_of_ok hquery).trans
          ((bind_of_ok hpending).trans ((bind_of_ok hrecorded).trans (require_of_neg hsame _ _)))))

theorem validateCapabilities (h : Represents db l) (selection : OperationSelection) :
    (query fun db : Database => selection.validateCapabilities (m := DomainResult) db.readAccount
      db.readScope db.getUtxo).Simulates (fun a db' b => a = b ∧ db' = db) db
        (selection.validateCapabilities (m := DomainResult) (fun id => .ok (l.account id))
          (fun id => .ok (l.scope id)) fun o => .ok (l.utxo o)) := by
  refine .query ?_
  have haccount : db.readAccount = fun id => .ok (l.account id) := funext h.account
  have hscope : db.readScope = fun id => .ok (l.scope id) := funext h.scope
  have hutxo : db.getUtxo = fun o => .ok (l.utxo o) := funext fun o => h.utxo.read o
  rw [haccount, hscope, hutxo]

/-- A lock is taken at the tick the batch will be recorded at. -/
theorem takeLock (h : Represents db l) (htick : l.tick < i64Max) {batch : StateBatch}
    (hfits : SqlInteger.Fits batch.selection.expiresAt) (effect : SelectionEffect)
    (u : ManagedUtxo) :
    ∃ db', takeLockTx batch effect u db = .ok ((), db') ∧
      Represents db' (l.setCell effect.outpoint { l.cell effect.outpoint with
        lock := some (newLock batch l.tick u effect.purpose) }) := by
  have hcreated : saturatingAdd l.tick 1 ≤ i64Max := by
    unfold saturatingAdd
    omega
  have hlock : (newLock batch l.tick u effect.purpose).Fits := ⟨hcreated, hfits⟩
  obtain ⟨row, hrow, hkey, hread⟩ := LockRow.ofLock_of_fits hlock effect.outpoint
  refine ⟨{ db with locks := db.locks.replace row }, ?_, h.account, h.scope, ?_, fun o => ?_,
    h.operation, h.intent, h.tick⟩
  · unfold takeLockTx
    rw [bind_of_ok (query_of_ok (f := Database.readTick) h.tick), bind_of_ok (value_of_ok hrow db)]
    rfl
  · rw [Ledger.utxo_setCell]
    refine (congrArg (Table.Stores _ _ db.utxos) ?_).mp h.utxo
    exact (Function.update_eq_self effect.outpoint l.utxo).symm
  · rw [Ledger.lock_setCell, Function.update_apply]
    refine (Table.read_replace hread db.locks o.display).trans ?_
    simp only [hkey, OutPoint.display_inj]
    split_ifs
    · rfl
    · exact h.lock o

theorem validateLockEffect_of_pos (h : Represents db l) {batch : StateBatch}
    (hu : l.utxo o = some u) (hok : u.canBeLocked (l.lock o).isSome = true ∨
      alreadyApplied batch.selection.operationId batch.phase u (l.lock o) = true) :
    validateLockEffectTx batch.selection batch.phase o db = .ok ((), db) := by
  unfold validateLockEffectTx
  rw [bind_of_ok (h.query_utxo o), hu]
  refine (bind_of_ok (h.query_lock o)).trans ?_
  split_ifs with hfree happlied
  · rfl
  · rfl
  · exact (hok.elim hfree happlied).elim

theorem validateLockEffect_of_neg (h : Represents db l) {batch : StateBatch}
    (hu : l.utxo o = some u) (hfree : ¬ u.canBeLocked (l.lock o).isSome = true)
    (happlied : ¬ alreadyApplied batch.selection.operationId batch.phase u (l.lock o) = true) :
    validateLockEffectTx batch.selection batch.phase o db =
      .error (lockRefusal u (l.lock o).isSome o) := by
  unfold validateLockEffectTx
  rw [bind_of_ok (h.query_utxo o), hu]
  refine (bind_of_ok (h.query_lock o)).trans ?_
  rw [if_neg hfree, if_neg happlied]
  rfl

/-- One effect is the check and the update of its own cell. -/
theorem applyEffect (h : Represents db l) (htick : l.tick < i64Max) {batch : StateBatch}
    (hfits : SqlInteger.Fits batch.selection.expiresAt) (effect : SelectionEffect) :
    (applyEffectTx batch effect).Simulates
      (fun _ db' _ => Represents db' (l.setCell effect.outpoint
        ((l.cell effect.outpoint).hold batch l.tick effect.purpose))) db
      ((l.cell effect.outpoint).checkHold batch effect) := by
  have hlock : (l.cell effect.outpoint).lock = l.lock effect.outpoint := rfl
  have hutxo : (l.cell effect.outpoint).utxo = l.utxo effect.outpoint := rfl
  unfold applyEffectTx Cell.checkHold Cell.hold
  rw [hutxo, hlock]
  cases hu : l.utxo effect.outpoint with
  | none =>
    refine .of_error (bind_of_error ?_)
    unfold validateLockEffectTx
    rw [bind_of_ok (h.query_utxo _), hu]
    rfl
  | some u =>
    dsimp only
    by_cases happlied : alreadyApplied batch.selection.operationId batch.phase u
        (l.lock effect.outpoint) = true
    · rw [if_pos happlied, if_pos happlied]
      refine .after (h.validateLockEffect_of_pos hu (.inr happlied)) ?_
      refine .after (h.query_utxo _) ?_
      rw [hu]
      refine .after (h.query_lock _) ?_
      rw [if_pos happlied]
      split_ifs with hdiffers
      · exact .of_error rfl
      · exact .of_ok rfl (h.unchanged rfl)
    · rw [if_neg happlied, if_neg happlied]
      by_cases hfree : u.canBeLocked (l.lock effect.outpoint).isSome = true
      · obtain ⟨heq, hu'⟩ := h.utxo_fits hu
        obtain ⟨db₁, hwrite, h₁⟩ := h.writeUtxo
          (u := u.reserve batch.selection.operationId batch.phase) hu'
        obtain ⟨db', htake, h'⟩ := h₁.takeLock htick hfits effect u
        rw [if_pos hfree]
        refine .after (h.validateLockEffect_of_pos hu (.inl hfree)) ?_
        refine .after (h.query_utxo _) ?_
        rw [hu]
        refine .after (h.query_lock _) ?_
        rw [if_neg happlied]
        refine .of_ok ((bind_of_ok hwrite).trans htake) ?_
        rw [show (u.reserve batch.selection.operationId batch.phase).outpoint = effect.outpoint
          from heq, Ledger.cell_setCell_self, Ledger.setCell_setCell] at h'
        exact h'
      · rw [if_neg hfree]
        exact .of_error (bind_of_error (h.validateLockEffect_of_neg hu hfree happlied))

theorem applyEffects {batch : StateBatch} (h : Represents db l) (htick : l.tick < i64Max)
    (hfits : SqlInteger.Fits batch.selection.expiresAt) (effects : List SelectionEffect) :
    (effects.forM (applyEffectTx batch)).Simulates
      (fun _ db' cells => Represents db' { l with cell := cells }) db
      (Pointwise.checkedUpdates (·.outpoint) (fun effect c => c.checkHold batch effect)
        (fun effect c => c.hold batch l.tick effect.purpose) effects l.cell) := by
  induction effects generalizing db l with
  | nil => exact .of_ok rfl h
  | cons effect effects ih =>
    unfold Pointwise.checkedUpdates
    refine .bind (h.applyEffect htick hfits effect) fun _ db₁ _ _ h₁ => ?_
    exact ih h₁ htick

/-- Checking and writing effect by effect is checking all of them and then writing. -/
theorem validateBatch (h : Represents db l) (htick : l.tick < i64Max) {batch : StateBatch}
    (hfits : SqlInteger.Fits batch.selection.expiresAt) :
    (do
      (do checkIntentTx batch; checkPhaseTx batch)
      query fun db : Database => batch.selection.validateCapabilities (m := DomainResult)
        db.readAccount db.readScope db.getUtxo
      batch.selection.effects.forM (applyEffectTx batch) : Tx Unit).Simulates
      (fun _ db' _ => Represents db' { l with cell := l.holdCells batch }) db
      (l.validateBatch batch) := by
  unfold Ledger.validateBatch
  refine .bind (h.checkBatch batch) fun _ db₁ _ _ hdb₁ => ?_
  subst hdb₁
  refine .bind (h.validateCapabilities batch.selection) fun _ db₂ _ hok hdb₂ => ?_
  obtain ⟨-, rfl⟩ := hdb₂
  have hwf := (OperationSelection.validateCapabilities_eq_ok_iff.mp hok).wellFormed
  have heffects := h.applyEffects htick hfits batch.selection.effects
  rw [Pointwise.checkedUpdates_of_nodup _ hwf.effects_nodup] at heffects
  exact heffects.of_map

theorem applyBatch (h : Represents db l) (htick : l.tick < i64Max) {batch : StateBatch}
    (hfits : SqlInteger.Fits batch.selection.expiresAt) :
    Refines Eq (applyBatch batch) db l (l.applyBatch batch) := by
  have hchecks := h.validateBatch htick hfits
  have hassoc : SqliteStateStore.applyBatch batch = (do
      (do
        (do checkIntentTx batch; checkPhaseTx batch)
        query fun db : Database => batch.selection.validateCapabilities (m := DomainResult)
          db.readAccount db.readScope db.getUtxo
        batch.selection.effects.forM (applyEffectTx batch))
      recordOperationTx batch.selection.operationId batch.phase batch.selection.expiresAt) := by
    unfold SqliteStateStore.applyBatch
    simp only [bind_assoc]
  unfold Ledger.applyBatch
  rw [hassoc]
  cases hv : l.validateBatch batch with
  | error e =>
    rw [hv] at hchecks
    exact .error (bind_of_error hchecks.error_inv)
  | ok u =>
    rw [hv] at hchecks
    obtain ⟨a, db₁, hrun, h₁⟩ := hchecks.ok_inv
    obtain ⟨db', hrecord, h'⟩ :=
      h₁.recordOperation htick batch.selection.operationId batch.phase hfits
    exact .after hrun (.ok hrecord rfl h')

/-! ## The other calls -/

theorem putUtxo (h : Represents db l) (hfits : u.Fits) :
    ∃ db', putUtxo u db = .ok ((), db') ∧ Represents db' (l.putUtxo u) := by
  obtain ⟨db₁, hwrite, h₁⟩ := h.writeUtxo hfits
  obtain ⟨db', htick, h'⟩ := h₁.tick_of_ok
  exact ⟨db', (bind_of_ok hwrite).trans htick, h'⟩

theorem releaseSelectedOperation (h : Represents db l) (htick : l.tick < i64Max)
    (id : OperationId) :
    ∃ released db', releaseSelectedOperation id db = .ok (released, db') ∧
      (StoreCall.releaseSelectedOperation id).Agree released (l.releaseSelectedOperation id).1 ∧
        Represents db' (l.releaseSelectedOperation id).2 := by
  unfold SqliteStateStore.releaseSelectedOperation Ledger.releaseSelectedOperation
  rw [bind_of_ok (h.query_operation id)]
  split_ifs with hselected
  · exact ⟨none, db, rfl, trivial, h⟩
  · obtain ⟨outpoints, db', hrun, henum, h'⟩ := h.releaseOperation htick id .rollingBack
    exact ⟨some outpoints, db', bind_of_ok hrun, henum, h'⟩

theorem completeOperation (h : Represents db l) (htick : l.tick < i64Max) (id : OperationId)
    (phase : OperationPhase) :
    Refines Enumerates (completeOperation id phase) db l (l.completeOperation id phase) := by
  unfold SqliteStateStore.completeOperation Ledger.completeOperation
  refine .after (h.query_operation id) ?_
  cases l.operation id with
  | none => exact .error rfl
  | some operation =>
    cases hi : l.intent id with
    | none => exact .after (h.query_header_of_none hi) (.error rfl)
    | some i =>
      obtain ⟨header, hheader, hstatus, -⟩ := h.header_of_some hi
      refine .after (query_of_ok (f := fun db : Database => db.readIntentHeader id) hheader) ?_
      dsimp only
      rw [← hstatus]
      split_ifs with hcommitted
      · exact .error (bind_of_error (require_of_neg hcommitted _ _))
      · refine .after (require_of_pos (not_not.mp hcommitted) _ _) ?_
        cases hadvance : operation.validateAdvance phase with
        | error e => exact .error (bind_of_error rfl)
        | ok advances =>
          refine .after (value_of_ok rfl _) ?_
          cases advances with
          | false => exact .ok rfl ⟨List.nodup_nil, fun o => by simp⟩ h
          | true =>
            obtain ⟨outpoints, db', hrun, henum, h'⟩ := h.advanceOperation htick id phase
            exact .ok hrun henum h'
/-! ## Listings -/

theorem listUtxos (h : Represents db l) :
    ∃ utxos, db.listUtxos = .ok utxos ∧ Enumerates utxos {u | ∃ o, l.utxo o = some u} := by
  obtain ⟨utxos, hdecode, hnodup, hmem⟩ := h.utxo.select (p := fun _ => true) (q := fun _ => true)
    (fun a b => a.outpoint ≤ b.outpoint) (fun _ _ _ => rfl)
    fun row u hrow => (UtxoRow.toUtxo_eq_ok_iff.mp hrow).outpoint.symm
  exact ⟨utxos, Table.mapM_eq_ok_iff.mpr hdecode, hnodup.of_map _, fun u => by simp [hmem]⟩

theorem listOperations (h : Represents db l) :
    ∃ operations, db.listOperations = .ok operations ∧
      Enumerates operations {op | ∃ id, l.operation id = some op} := by
  obtain ⟨operations, hdecode, hnodup, hmem⟩ := h.operation.select (p := fun _ => true)
    (q := fun _ => true) (fun a b => a.operationId ≤ b.operationId) (fun _ _ _ => rfl)
    fun row op hrow => (OperationRow.toOperation_eq_ok hrow).1.symm
  exact ⟨operations, Table.mapM_eq_ok_iff.mpr hdecode, hnodup.of_map _, fun op => by simp [hmem]⟩

/-- The intent in a row of the header and the rows of its inputs and effects. -/
def rowIntent (db : Database) (row : IntentRow) : DomainResult OperationIntent := do
  let header ← row.header 3
  let selection ← db.readIntentSelection ⟨row.operationId⟩ header.changeScopeId header.expiresAt
  return { selection, status := header.status, recordedAt := header.recordedAt }

theorem rowIntent_eq_ok {row : IntentRow} {i : OperationIntent} (hrow : rowIntent db row = .ok i) :
    row.status = encode i.status ∧ i.selection.operationId.value = row.operationId := by
  obtain ⟨header, hheader, hrest⟩ := Txoscope.bind_eq_ok.mp hrow
  obtain ⟨selection, hselection, hi⟩ := Txoscope.bind_eq_ok.mp hrest
  cases hi
  obtain ⟨outpoints, -, hselection⟩ := Txoscope.bind_eq_ok.mp hselection
  obtain ⟨effects, -, hselection⟩ := Txoscope.bind_eq_ok.mp hselection
  cases hselection
  exact ⟨IntentRow.status_of_header hheader, rfl⟩

theorem stores_intents (h : Represents db l) :
    Table.Stores (rowIntent db) OperationId.value db.intents l.intent where
  named row _ := ⟨⟨row.operationId⟩, rfl⟩
  read id := by
    cases hi : l.intent id with
    | none =>
      have hrow := Table.read_eq_ok_none_iff.mp (h.header_of_none hi)
      exact Table.read_eq_ok_none_iff.mpr hrow
    | some i =>
      obtain ⟨header, hheader, hselection, hstatus, hrecorded⟩ :=
        getIntent_eq_some_iff.mp ((h.intent id).trans (congrArg Except.ok hi))
      obtain ⟨row, hfind, hrow⟩ := Table.read_eq_ok_some_iff.mp hheader
      obtain rfl : id = ⟨row.operationId⟩ :=
        congrArg OperationId.mk (Table.find_eq_some_iff.mp hfind).2.symm
      refine Table.read_eq_ok_some_iff.mpr ⟨row, hfind, ?_⟩
      refine Txoscope.bind_eq_ok.mpr ⟨header, IntentRow.header_column hrow 3,
        Txoscope.bind_eq_ok.mpr ⟨i.selection, hselection, ?_⟩⟩
      rw [← hstatus, ← hrecorded]
      rfl

theorem listPendingIntents (h : Represents db l) :
    ∃ intents, db.listPendingIntents = .ok intents ∧
      Enumerates intents {i | (∃ id, l.intent id = some i) ∧ i.status = .pending} := by
  have hpending : ∀ (row : IntentRow) (i : OperationIntent), rowIntent db row = .ok i →
      decide (row.status = "pending") = decide (i.status = .pending) := by
    intro row i hrow
    rw [(rowIntent_eq_ok hrow).1, decide_eq_decide]
    exact encode_injective.eq_iff (b := IntentStatus.pending)
  obtain ⟨intents, hdecode, hnodup, hmem⟩ :=
    h.stores_intents.select (fun a b => a.operationId ≤ b.operationId) hpending
      fun row i hrow => (rowIntent_eq_ok hrow).2
  refine ⟨intents, Table.mapM_eq_ok_iff.mpr hdecode, hnodup.of_map _, fun i => ?_⟩
  rw [hmem, decide_eq_true_eq]
  exact and_comm

/-! ## Two steps of a connection -/

theorem exec_persistIntent (h : Represents db l) (selection : OperationSelection) :
    exec (.persistIntent selection) db = Program.run executeStatement
      (persistChecked selection (l.intent selection.operationId)) db := by
  have hcheck : Program.run executeStatement
      (oneStep (.getIntent selection.operationId) trivial) db =
        (.ok (l.intent selection.operationId), db) :=
    congrArg (fun r => (r, db)) (h.intent selection.operationId)
  exact Program.run_bind_ok _ hcheck

theorem persistIntent (h : Represents db l) (htick : l.tick < i64Max)
    {selection : OperationSelection} (hfits : SqlInteger.Fits selection.expiresAt) :
    ResultAgree Eq (exec (.persistIntent selection) db).1 (l.persistIntent selection).1 ∧
      Represents (exec (.persistIntent selection) db).2 (l.persistIntent selection).2 := by
  rw [h.exec_persistIntent selection]
  cases hi : l.intent selection.operationId with
  | none => exact (h.recordIntent htick hfits hi).commit h
  | some existing =>
    unfold persistChecked Ledger.persistIntent
    rw [hi]
    dsimp only
    split_ifs with hdiffers
    · exact ⟨rfl, h⟩
    · exact ⟨rfl, h⟩

/-- A new intent is not recorded from the tick `i64::MAX` on. -/
theorem persistIntent_of_le (h : Represents db l) (htick : i64Max ≤ l.tick)
    (selection : OperationSelection) (hi : l.intent selection.operationId = none) :
    (exec (.persistIntent selection) db).1 =
      .error (.storage "out of range integral type conversion attempted") := by
  rw [h.exec_persistIntent selection, hi]
  exact congrArg Prod.fst (commit_of_error (recordIntent_of_le h.tick htick selection))

theorem advanceTick (h : Represents db l) (delta : ℕ) :
    (exec (.advanceTick delta) db).1 = .ok () ∧
      Represents (exec (.advanceTick delta) db).2 (l.advanceTick delta) := by
  have hread : Program.run executeStatement (oneStep .currentTick trivial) db = (.ok l.tick, db) :=
    congrArg (fun r => (r, db)) h.tick
  have hrun : exec (.advanceTick delta) db = Program.run executeStatement
      (Program.invoke (Statement.writeTick (saturatingAdd l.tick (max delta 1)))) db :=
    Program.run_bind_ok _ hread
  rw [hrun]
  exact ⟨rfl, h.account, h.scope, h.utxo, h.lock, h.operation, h.intent,
    db.readTick_write (saturatingAdd_le _ _)⟩

end Represents

/-! ## Every call -/

end SqliteStateStore

namespace StoreCall

/-- The calls of the registrations. -/
def IsTopology : StoreCall → Prop
  | putAccount _ | putScope _ => True
  | _ => False

/-- The numbers a call writes fit the integer columns. -/
def Fits : StoreCall → Prop
  | putUtxo utxo => utxo.Fits
  | advanceTick delta => delta ≤ i64Max
  | persistIntent selection => SqlInteger.Fits selection.expiresAt
  | applyBatch batch => SqlInteger.Fits batch.selection.expiresAt
  | applyReconciliation plan => ∀ action ∈ plan.actions, action.Fits
  | _ => True

/-- The calls that write the tick to a record. -/
def RecordsTick : StoreCall → Prop
  | persistIntent _ | markIntentFailed _ | applyBatch _ | releaseSelectedOperation _
  | releaseOperation _ _ | completeOperation _ _ => True
  | _ => False

instance : DecidablePred IsTopology
  | putAccount _ | putScope _ => isTrue trivial
  | getAccount _ | getScope _ | getUtxo _ | getLock _ | getOperation _ | getIntent _ | listUtxos
  | listOperations | listPendingIntents | currentTick | putUtxo _ | advanceTick _ | persistIntent _
  | markIntentCommitted _ | markIntentFailed _ | applyBatch _ | applyReconciliation _
  | releaseSelectedOperation _ | releaseOperation _ _ | completeOperation _ _ => isFalse id

instance : DecidablePred Fits
  | putUtxo utxo => inferInstanceAs (Decidable utxo.Fits)
  | advanceTick delta => inferInstanceAs (Decidable (delta ≤ i64Max))
  | persistIntent selection => inferInstanceAs (Decidable (SqlInteger.Fits selection.expiresAt))
  | applyBatch batch => inferInstanceAs (Decidable (SqlInteger.Fits batch.selection.expiresAt))
  | applyReconciliation plan =>
    inferInstanceAs (Decidable (∀ action ∈ plan.actions, action.Fits))
  | getAccount _ | getScope _ | getUtxo _ | getLock _ | getOperation _ | getIntent _ | listUtxos
  | listOperations | listPendingIntents | currentTick | putAccount _ | putScope _
  | markIntentCommitted _ | markIntentFailed _ | releaseSelectedOperation _ | releaseOperation _ _
  | completeOperation _ _ => isTrue trivial

instance : DecidablePred RecordsTick
  | persistIntent _ | markIntentFailed _ | applyBatch _ | releaseSelectedOperation _
  | releaseOperation _ _ | completeOperation _ _ => isTrue trivial
  | getAccount _ | getScope _ | getUtxo _ | getLock _ | getOperation _ | getIntent _ | listUtxos
  | listOperations | listPendingIntents | currentTick | putAccount _ | putScope _ | putUtxo _
  | advanceTick _ | markIntentCommitted _ | applyReconciliation _ => isFalse id

end StoreCall

namespace SqliteStateStore

variable {db : Database} {l : Ledger}

/-- Every read returns what it returns on the ledger. -/
theorem read_refines (h : Represents db l) {c : StoreCall} (hc : c.IsRead) :
    c.AgreeResult (exec c db).1 (Ledger.exec c l).1 := by
  cases c with
  | getAccount id => exact .of_eq (h.account id)
  | getScope id => exact .of_eq (h.scope id)
  | getUtxo o => exact .of_eq (h.utxo.read o)
  | getLock o => exact .of_eq (h.lock o)
  | getOperation id => exact .of_eq (h.operation.read id)
  | getIntent id => exact .of_eq (h.intent id)
  | currentTick => exact .of_eq h.tick
  | listUtxos =>
    obtain ⟨utxos, hlist, henum⟩ := h.listUtxos
    change ResultAgree _ db.listUtxos _
    rw [hlist]
    exact henum
  | listOperations =>
    obtain ⟨operations, hlist, henum⟩ := h.listOperations
    change ResultAgree _ db.listOperations _
    rw [hlist]
    exact henum
  | listPendingIntents =>
    obtain ⟨intents, hlist, henum⟩ := h.listPendingIntents
    change ResultAgree _ db.listPendingIntents _
    rw [hlist]
    exact henum
  | _ => exact hc.elim

/-- A transaction that succeeds. -/
theorem Refines.commit_of_ok {α β : Type} {R : α → β → Prop} {m : Tx α} {b : β} {l' : Ledger}
    (h : ∃ a db', m db = .ok (a, db') ∧ R a b ∧ Represents db' l') :
    ResultAgree R (m.commit db).1 (.ok b) ∧ Represents (m.commit db).2 l' := by
  obtain ⟨a, db', hrun, hR, h'⟩ := h
  rw [Transaction.commit_of_ok hrun]
  exact ⟨hR, h'⟩

/-- Every call but the registrations returns what it returns on the ledger, and leaves the ledger it
leaves there. -/
theorem exec_refines (h : Represents db l) (hmanaged : ∀ o, (l.cell o).LockManaged) {c : StoreCall}
    (htopology : ¬c.IsTopology) (hfits : c.Fits) (htick : c.RecordsTick → l.tick < i64Max) :
    c.AgreeResult (exec c db).1 (Ledger.exec c l).1 ∧
      Represents (exec c db).2 (Ledger.exec c l).2 := by
  cases c with
  | getAccount | getScope | getUtxo | getLock | getOperation | getIntent | currentTick
  | listUtxos | listOperations | listPendingIntents => exact ⟨read_refines h trivial, h⟩
  | putAccount account => exact (htopology trivial).elim
  | putScope scope => exact (htopology trivial).elim
  | putUtxo utxo =>
    obtain ⟨db', hrun, h'⟩ := h.putUtxo hfits
    exact Refines.commit_of_ok (R := Eq) ⟨(), db', hrun, rfl, h'⟩
  | advanceTick delta =>
    obtain ⟨hresult, h'⟩ := h.advanceTick delta
    exact ⟨.of_eq hresult, h'⟩
  | persistIntent selection => exact h.persistIntent (htick trivial) hfits
  | markIntentCommitted id => exact (h.markIntentCommitted id).commit h
  | markIntentFailed id => exact (h.markIntentFailed (htick trivial) id).commit h
  | applyBatch batch => exact (h.applyBatch (htick trivial) hfits).commit h
  | applyReconciliation plan =>
    obtain ⟨db', hrun, h'⟩ := h.applyReconciliation hfits hmanaged
    exact Refines.commit_of_ok (R := Eq) ⟨(), db', hrun, rfl, h'⟩
  | releaseSelectedOperation id =>
    exact Refines.commit_of_ok (h.releaseSelectedOperation (htick trivial) id)
  | releaseOperation id phase =>
    exact Refines.commit_of_ok (h.releaseOperation (htick trivial) id phase)
  | completeOperation id phase => exact (h.completeOperation (htick trivial) id phase).commit h

end SqliteStateStore

end Txoscope
