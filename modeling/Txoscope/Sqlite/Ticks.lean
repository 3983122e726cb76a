import Txoscope.Sqlite.Intents

/-!
# The tick over interleaved connections

Every transaction moves the tick forward and stamps what it inserts with the new tick.
`advance_tick` reads the tick in one statement and writes it in another, so it can set the tick back
behind what other connections did in between (`tick_set_back`). As long as no such update is
executed at a later tick than the one it writes, the tick never decreases and everything inserted is
stamped later than every tick before it (`tick_monotone`).
-/

namespace Txoscope

open SqliteCodec Transaction

namespace SqliteStateStore

/-! ## What is kept from a tick on -/

/-- A stamp that fits its column is not saturated. -/
theorem lt_stamp {n : ℕ} {c : SqlInteger} (h : SqlInteger.bind (saturatingAdd n 1) = .ok c) :
    n < c.val.toNat := by
  have hle : saturatingAdd n 1 ≤ i64Max := SqlInteger.bind_le h
  rw [SqlInteger.bind_of_le hle] at h
  cases h
  show n < (saturatingAdd n 1 : ℤ).toNat
  unfold saturatingAdd i64Max u64Max at *
  omega

/-- The tick is `t` or later. -/
def TickFrom (t : ℕ) (db : Database) : Prop := ∃ n, db.readTick = .ok n ∧ t ≤ n

/-- What has been inserted is stamped later than `t`. Of a row that was there only the status of an
intent and the expiry of a lock may have been updated. -/
structure StampedAfter (t : ℕ) (db db' : Database) : Prop where
  operations : Table.Stamped (fun row => row) (fun row => t < row.updatedAt.val.toNat)
    db.operations db'.operations
  intents : Table.Stamped (fun row => { row with status := "" })
    (fun row => t < row.recordedAt.val.toNat) db.intents db'.intents
  locks : Table.Stamped (fun row => { row with expiresAt := none })
    (fun row => t < row.createdAt.val.toNat) db.locks db'.locks

/-- From the tick `t` on, the tick stays at `t` or later and insertions are stamped later. -/
def Since (t : ℕ) (db db' : Database) : Prop :=
  TickFrom t db → TickFrom t db' ∧ StampedAfter t db db'

variable {t : ℕ}

theorem StampedAfter.refl (db : Database) : StampedAfter t db db := ⟨.refl _, .refl _, .refl _⟩

theorem StampedAfter.trans {db db' db'' : Database} (h : StampedAfter t db db')
    (h' : StampedAfter t db' db'') : StampedAfter t db db'' :=
  ⟨h.1.trans h'.1, h.2.trans h'.2, h.3.trans h'.3⟩

/-- A record of an operation is inserted. -/
theorem StampedAfter.operation {row : OperationRow} (h : t < row.updatedAt.val.toNat)
    (db : Database) : StampedAfter t db { db with operations := db.operations.replace row } := by
  refine ⟨Table.stamped_replace ?_ _, .refl _, .refl _⟩
  exact h

/-- An intent is inserted. -/
theorem StampedAfter.intent (row : IntentRow) (h : t < row.recordedAt.val.toNat)
    (db : Database) : StampedAfter t db { db with intents := db.intents.replace row } := by
  refine ⟨.refl _, Table.stamped_replace ?_ _, .refl _⟩
  exact h

/-- A lock is inserted. -/
theorem StampedAfter.lock {row : LockRow} (h : t < row.createdAt.val.toNat)
    (db : Database) : StampedAfter t db { db with locks := db.locks.replace row } := by
  refine ⟨.refl _, .refl _, Table.stamped_replace ?_ _⟩
  exact h

theorem Since.refl (db : Database) : Since t db db := fun h => ⟨h, .refl db⟩

theorem Since.trans {db db' db'' : Database} (h : Since t db db') (h' : Since t db' db'') :
    Since t db db'' := by
  intro htick
  obtain ⟨htick', hstamped⟩ := h htick
  obtain ⟨htick'', hstamped'⟩ := h' htick'
  exact ⟨htick'', hstamped.trans hstamped'⟩

/-- A write that leaves the tick alone. -/
theorem Since.of_stamped {db db' : Database} (htick : db'.tick = db.tick)
    (h : StampedAfter t db db') : Since t db db' := by
  rintro ⟨n, hn, hle⟩
  refine ⟨⟨n, ?_, hle⟩, h⟩
  unfold Database.readTick at hn ⊢
  rw [htick]
  exact hn

/-- A write of the tick alone. -/
theorem since_writeTick {db : Database} {n : ℕ} (hn : n ≤ u64Max)
    (h : ∀ m, db.readTick = .ok m → m ≤ n) : Since t db { db with tick := Nat.repr n } := by
  rintro ⟨m, hm, hle⟩
  exact ⟨⟨n, db.readTick_write hn, hle.trans (h m hm)⟩, .refl _, .refl _, .refl _⟩

theorem since_nextTickTx : nextTickTx.Preserves (Since t) := by
  intro db n db' h
  obtain ⟨m, hm, rfl, rfl⟩ := nextTickTx_eq_ok h
  refine since_writeTick (saturatingAdd_le _ _) fun m' hm' => ?_
  rw [hm] at hm'
  cases hm'
  exact le_saturatingAdd (Database.readTick_le hm) 1

/-- The next tick binds to a stamp later than the tick that was read. -/
theorem lt_of_tickFrom {db : Database} (h : TickFrom t db) {n : ℕ} (hn : db.readTick = .ok n)
    {c : SqlInteger} (hc : SqlInteger.bind (saturatingAdd n 1) = .ok c) : t < c.val.toNat := by
  obtain ⟨m, hm, hle⟩ := h
  rw [hn] at hm
  cases hm
  exact hle.trans_lt (lt_stamp hc)

theorem since_recordOperationTx (id : OperationId) (phase : OperationPhase)
    (expiresAt : Option ℕ) : (recordOperationTx id phase expiresAt).Preserves (Since t) := by
  intro db u db' h
  obtain ⟨n, _, htick, h₁⟩ := Transaction.bind_eq_ok h
  have hsince := since_nextTickTx (t := t) db n _ htick
  obtain ⟨m, hm, rfl, rfl⟩ := nextTickTx_eq_ok htick
  obtain ⟨row, _, hvalue, h₂⟩ := Transaction.bind_eq_ok h₁
  obtain ⟨hrow, rfl⟩ := value_eq_ok hvalue
  cases h₂
  obtain ⟨updatedAt, hupdated, hrow⟩ := Txoscope.bind_eq_ok.mp hrow
  obtain ⟨expires, hexpires, hrow⟩ := Txoscope.bind_eq_ok.mp hrow
  cases hrow
  intro hfrom
  have hstamp : t < updatedAt.val.toNat := lt_of_tickFrom hfrom hm hupdated
  obtain ⟨htick', hstamped⟩ := hsince hfrom
  exact ⟨htick', hstamped.trans (.operation hstamp _)⟩

theorem since_takeLockTx (batch : StateBatch) (effect : SelectionEffect) (utxo : ManagedUtxo) :
    (takeLockTx batch effect utxo).Preserves (Since t) := by
  intro db u db' h
  obtain ⟨n, _, hquery, h₁⟩ := Transaction.bind_eq_ok h
  obtain ⟨hn, rfl⟩ := query_eq_ok hquery
  obtain ⟨row, _, hvalue, h₂⟩ := Transaction.bind_eq_ok h₁
  obtain ⟨hrow, rfl⟩ := value_eq_ok hvalue
  cases h₂
  obtain ⟨createdAt, hcreated, hrow⟩ := Txoscope.bind_eq_ok.mp hrow
  obtain ⟨expires, hexpires, hrow⟩ := Txoscope.bind_eq_ok.mp hrow
  cases hrow
  intro hfrom
  have hstamp : t < createdAt.val.toNat := lt_of_tickFrom hfrom hn hcreated
  exact ⟨hfrom, .lock hstamp _⟩

theorem since_framed (t : ℕ) : Framed (Since t) where
  refl := .refl
  trans _ _ _ h h' := h.trans h'
  nextTick := since_nextTickTx
  accounts _ _ := .of_stamped rfl ⟨.refl _, .refl _, .refl _⟩
  scopes _ _ := .of_stamped rfl ⟨.refl _, .refl _, .refl _⟩
  utxos _ _ := .of_stamped rfl ⟨.refl _, .refl _, .refl _⟩
  deleteLocks db p := .of_stamped rfl ⟨.refl _, .refl _, Table.stamped_deleteWhere p _⟩
  clearExpiry db id h := by
    refine .of_stamped rfl ⟨.refl _, .refl _, Table.stamped_update h (fun row => ?_) _⟩
    split_ifs <;> rfl
  takeLock := since_takeLockTx
  recordOperation := since_recordOperationTx

/-! ## Transactions on intents -/

theorem since_setStatusTx (id : OperationId) (status : IntentStatus) :
    (setStatusTx id status).Preserves (Since t) := by
  refine .execute fun db => .of_stamped rfl ⟨.refl _, ?_, .refl _⟩
  refine Table.stamped_update (fun row => by split_ifs <;> rfl) (fun row => ?_) _
  split_ifs <;> rfl

/-- The status is set, and the tick moves on. -/
theorem since_settle (id : OperationId) (status : IntentStatus) :
    (do setStatusTx id status; let _ ← nextTickTx : Tx Unit).Preserves (Since t) :=
  .bind (since_framed t).trans (since_setStatusTx id status) fun _ => (since_framed t).tick

theorem since_markIntentCommitted (id : OperationId) :
    (markIntentCommitted id).Preserves (Since t) := by
  refine .bind (since_framed t).trans (.query .refl _) fun header => ?_
  cases header with
  | none => exact .throw _
  | some header =>
    exact .bind (since_framed t).trans (.require .refl _ _) fun _ => since_settle id .committed

theorem since_markIntentFailed (id : OperationId) :
    (markIntentFailed id).Preserves (Since t) := by
  refine .bind (since_framed t).trans (.query .refl _) fun header => ?_
  rcases header with _ | ⟨changeScopeId, status, recordedAt, expiresAt⟩
  · exact .throw _
  · cases status with
    | committed => exact .throw _
    | failed => exact .pure .refl _
    | pending =>
      refine .bind (since_framed t).trans (.query .refl _) fun phase => ?_
      rcases phase with _ | phase
      · exact since_settle id .failed
      · cases phase with
        | selected =>
          exact .bind (since_framed t).trans ((since_framed t).releaseOperationTx _ _)
            fun _ => since_settle id .failed
        | rollingBack => exact since_settle id .failed
        | constructing | signed | broadcast | awaitingConfirmation | awaitingL2Finality =>
          exact .throw _

theorem since_recordIntent (selection : OperationSelection) :
    (recordIntent selection).Preserves (Since t) := by
  intro db intent db' h
  obtain ⟨n, row, inputs, effects, hn, rfl, hrow, -, -, rfl⟩ := recordIntent_eq_ok h
  intro hfrom
  have htick : Since t db { db with tick := Nat.repr (saturatingAdd n 1) } := by
    refine since_writeTick (saturatingAdd_le _ _) fun m hm => ?_
    rw [hn] at hm
    cases hm
    exact le_saturatingAdd (Database.readTick_le hn) 1
  obtain ⟨htick', -⟩ := htick hfrom
  obtain ⟨recordedAt, hrecorded, hrow⟩ := Txoscope.bind_eq_ok.mp hrow
  obtain ⟨expires, hexpires, hrow⟩ := Txoscope.bind_eq_ok.mp hrow
  cases hrow
  have hstamp : t < recordedAt.val.toNat := lt_of_tickFrom hfrom hn hrecorded
  obtain ⟨-, hintents, -⟩ := StampedAfter.intent {
    operationId := selection.operationId.value
    changeScopeId := selection.changeScopeId.value
    status := encode IntentStatus.pending
    recordedAt
    expiresAt := expires } hstamp db
  exact ⟨htick', .refl _, hintents, .refl _⟩

/-! ## Interleaved connections -/

/-- The update of `advance_tick` is executed while the tick is at most the one it writes. -/
def MayWriteTick (db : Database) : Statement → Prop
  | .writeTick tick => ∀ n, db.readTick = .ok n → n ≤ tick
  | _ => True

/-- The ticks that are written fit a `u64`. -/
def WritesTick : Statement → Prop
  | .writeTick tick => tick ≤ u64Max
  | _ => True

theorem session_onlyWritesTick (p : Connection Unit) (h : IsSession p) :
    p.OnlyCalls WritesTick := by
  obtain ⟨c, rfl⟩ := h
  refine .bind (.attempt ?_) fun _ => .pure _
  cases c with
  | advanceTick delta => exact .bind (.invoke trivial) fun tick => .invoke (saturatingAdd_le _ _)
  | persistIntent selection =>
    refine .bind (.invoke trivial) fun existing => ?_
    cases existing with
    | none => exact .invoke trivial
    | some existing =>
      simp only [persistChecked]
      split_ifs
      · exact .throw _
      · exact .pure _
  | _ => exact .invoke trivial

/-- One statement. -/
theorem since_executeStatement {db : Database} {st : Statement} (h : MayWriteTick db st)
    (hwrites : WritesTick st) : Since t db (executeStatement st db).2 := by
  cases st with
  | call c hc =>
    exact (since_framed t).executeCall since_markIntentCommitted since_markIntentFailed c hc db
  | recordIntent selection => exact (since_recordIntent selection).commit .refl db
  | writeTick tick => exact since_writeTick hwrites h

/-- The tick never decreases, and what is inserted is stamped later than every tick before it, in
every run in which the update of `advance_tick` never writes less than the tick it finds. -/
theorem tick_monotone {db : Database} {x y : Shared} (hx : Interleaving anyStatement (db, []) x)
    (hy : Interleaving MayWriteTick x y) {n : ℕ} (hn : x.1.readTick = .ok n) :
    (∃ m, y.1.readTick = .ok m ∧ n ≤ m) ∧ StampedAfter n x.1 y.1 := by
  have hnone : ∀ p ∈ ((db, []) : Shared).2, p.OnlyCalls WritesTick :=
    fun p hp => absurd hp List.not_mem_nil
  obtain ⟨-, hopen⟩ := Program.admitted_onlyCalls session_onlyWritesTick hx hnone
  obtain ⟨hrun, -⟩ := Program.admitted_onlyCalls session_onlyWritesTick hy hopen
  have hsteps : Program.Steps executeStatement (fun db st => MayWriteTick db st ∧ WritesTick st)
      (fun _ _ => False) x.1 y.1 := Program.steps_of_admitted hrun
  have hsince : Since n x.1 y.1 := by
    refine hsteps.relation (R := Since n) .refl (fun _ _ _ h h' => h.trans h') ?_ ?_
    · exact fun _ _ h => since_executeStatement h.1 h.2
    · exact fun _ _ hfalse => hfalse.elim
  exact hsince ⟨n, hn, le_rfl⟩

/-! ## A tick set back -/

/-- A session of `advance_tick` that is about to write `tick`. -/
def advancing (tick : ℕ) : Connection Unit :=
  (Program.invoke (Statement.writeTick tick)).attempt >>= fun _ => pure ()

theorem readTick_step {ok : Database → Statement → Prop} {db : Database} {n : ℕ}
    (hn : db.readTick = .ok n) (hok : ok db (.call .currentTick trivial)) (delta : ℕ)
    (ps qs : List (Connection Unit)) :
    SharedStep ok (db, ps ++ session (.advanceTick delta) :: qs)
      (db, ps ++ advancing (saturatingAdd n (max delta 1)) :: qs) := by
  have hstep : SharedStep ok (db, ps ++ session (.advanceTick delta) :: qs)
      (db, ps ++ (((Program.done db.readTick).bind fun tick =>
        Program.invoke (Statement.writeTick (saturatingAdd tick (max delta 1)))).attempt >>=
          fun _ => pure ()) :: qs) :=
    Program.Admitted.call (c := Statement.call .currentTick trivial) hok
  rw [hn] at hstep
  exact hstep

theorem writeTick_step {ok : Database → Statement → Prop} {db : Database} {tick : ℕ}
    (hok : ok db (.writeTick tick)) (ps qs : List (Connection Unit)) :
    SharedStep ok (db, ps ++ advancing tick :: qs)
      ({ db with tick := Nat.repr tick }, ps ++ pure () :: qs) :=
  Program.Admitted.call (c := Statement.writeTick tick) hok

namespace Sample

/-- The empty database at a later tick. -/
def atTick (tick : ℕ) : Database := { Database.empty with tick := Nat.repr tick }

end Sample

open SqliteStateStore.Sample

/-- A connection reads the tick 5, another one records an intent, and the first one writes 8. -/
theorem tick_monotone_sample :
    ∃ y : Shared, Interleaving MayWriteTick (atTick 5, [pure ()]) y ∧
      (∃ i, y.1.getIntent ⟨"send"⟩ = .ok (some i) ∧ i.recordedAt = 6) ∧
      (∃ m, y.1.readTick = .ok m ∧ 5 ≤ m) ∧ StampedAfter 5 (atTick 5) y.1 := by
  have hadvanced : Interleaving anyStatement (Database.empty, []) (atTick 5, [pure ()]) := by
    refine .head (start_step _ (.advanceTick 5) []) ?_
    refine .head (readTick_step (n := 0) rfl trivial 5 [] []) ?_
    exact .single (writeTick_step trivial [] [])
  have hrun : Interleaving MayWriteTick (atTick 5, [pure ()])
      ({ (executeStatement (.recordIntent (sending "aa")) (atTick 5)).2 with tick := Nat.repr 8 },
        [pure (), pure (), pure ()]) := by
    refine .head (start_step _ (.advanceTick 3) _) ?_
    refine .head (readTick_step (n := 5) rfl trivial 3 [] [pure ()]) ?_
    refine .head (start_step _ (.persistIntent (sending "aa")) _) ?_
    refine .head (check_step rfl trivial [] [advancing 8, pure ()]) ?_
    refine .head (record_step trivial [] [advancing 8, pure ()]) ?_
    refine .single (writeTick_step (fun n hn => ?_) [pure ()] [pure ()])
    cases hn
    decide
  exact ⟨_, hrun, ⟨⟨sending "aa", .pending, 6⟩, rfl, rfl⟩, tick_monotone hadvanced hrun rfl⟩

/-- A connection reads the tick 0, another one advances it to 5, and the first one writes 1. The
intent recorded next is stamped 2. -/
theorem tick_set_back :
    ∃ x y z : Shared, Interleaving anyStatement (Database.empty, []) x ∧
      Interleaving anyStatement x y ∧ Interleaving anyStatement y z ∧
      x.1.readTick = .ok 5 ∧ y.1.readTick = .ok 1 ∧ x.1.getIntent ⟨"send"⟩ = .ok none ∧
      ∃ i, z.1.getIntent ⟨"send"⟩ = .ok (some i) ∧ i.recordedAt = 2 := by
  refine ⟨(atTick 5, [pure (), advancing 1]), (atTick 1, [pure (), pure ()]),
    ((executeStatement (.recordIntent (sending "aa")) (atTick 1)).2, [pure (), pure (), pure ()]),
    ?_, ?_, ?_, rfl, rfl, rfl, ⟨sending "aa", .pending, 2⟩, rfl, rfl⟩
  · refine .head (start_step _ (.advanceTick 1) []) ?_
    refine .head (readTick_step (n := 0) rfl trivial 1 [] []) ?_
    refine .head (start_step _ (.advanceTick 5) _) ?_
    refine .head (readTick_step (n := 0) rfl trivial 5 [] [advancing 1]) ?_
    exact .single (writeTick_step trivial [] [advancing 1])
  · exact .single (writeTick_step trivial [pure ()] [])
  · refine .head (start_step _ (.persistIntent (sending "aa")) _) ?_
    refine .head (check_step rfl trivial [] [pure (), pure ()]) ?_
    exact .single (record_step trivial [] [pure (), pure ()])

end SqliteStateStore

end Txoscope
