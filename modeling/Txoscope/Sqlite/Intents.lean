import Txoscope.Sqlite.Connections

/-!
# Recorded intents over interleaved connections

What each transaction does to a recorded intent. `persist_intent` looks for a recorded intent
before it opens its transaction, and the transaction replaces whatever is there by then: two
connections can overwrite each other's intents (`intent_overwritten`). As long as every such
transaction finds what its check found, a recorded intent keeps its selection and its status only
moves on (`intent_kept`).
-/

namespace Txoscope

open SqliteCodec Transaction

namespace SqliteStateStore

/-! ## Reading an intent -/

theorem getIntent_eq_some_iff {db : Database} {id : OperationId} {i : OperationIntent} :
    db.getIntent id = .ok (some i) ↔ ∃ header, db.readIntentHeader id = .ok (some header) ∧
      db.readIntentSelection id header.changeScopeId header.expiresAt = .ok i.selection ∧
      i.status = header.status ∧ i.recordedAt = header.recordedAt := by
  unfold Database.getIntent
  rw [bind_eq_ok]
  constructor
  · rintro ⟨_ | header, hheader, h⟩
    · cases h
    · obtain ⟨selection, hselection, hi⟩ := bind_eq_ok.mp h
      cases hi
      exact ⟨header, hheader, hselection, rfl, rfl⟩
  · rintro ⟨header, hheader, hselection, hstatus, hrecorded⟩
    refine ⟨some header, hheader, bind_eq_ok.mpr ⟨i.selection, hselection, ?_⟩⟩
    rw [← hstatus, ← hrecorded]
    rfl

/-- The tables of the intents are the same. -/
structure SameIntents (db db' : Database) : Prop where
  intents : db'.intents = db.intents
  intentInputs : db'.intentInputs = db.intentInputs
  intentEffects : db'.intentEffects = db.intentEffects

theorem SameIntents.getIntent {db db' : Database} (h : SameIntents db db') (id : OperationId) :
    db'.getIntent id = db.getIntent id := by
  unfold Database.getIntent Database.readIntentHeader Database.readIntentSelection
    Database.intentInputRows Database.intentEffectRows
  rw [h.intents, h.intentInputs, h.intentEffects]

theorem sameIntents_framed : Framed SameIntents := by
  have hrefl : ∀ db, SameIntents db db := fun db => ⟨rfl, rfl, rfl⟩
  have htrans : ∀ db db' db'', SameIntents db db' → SameIntents db' db'' → SameIntents db db'' :=
    fun _ _ _ h h' => ⟨h'.1.trans h.1, h'.2.trans h.2, h'.3.trans h.3⟩
  have htick : nextTickTx.Preserves SameIntents :=
    .bind htrans (.query hrefl _) fun _ =>
      .bind htrans (.execute fun db => ⟨rfl, rfl, rfl⟩) fun _ => .pure hrefl _
  exact {
    refl := hrefl
    trans := htrans
    nextTick := htick
    accounts := fun db _ => ⟨rfl, rfl, rfl⟩
    scopes := fun db _ => ⟨rfl, rfl, rfl⟩
    utxos := fun db _ => ⟨rfl, rfl, rfl⟩
    deleteLocks := fun db _ => ⟨rfl, rfl, rfl⟩
    clearExpiry := fun db _ _ => ⟨rfl, rfl, rfl⟩
    takeLock := fun _ _ _ =>
      .bind htrans (.query hrefl _) fun _ =>
        .bind htrans (.value hrefl _) fun _ => .execute fun db => ⟨rfl, rfl, rfl⟩
    recordOperation := fun _ _ _ =>
      .bind htrans htick fun _ =>
        .bind htrans (.value hrefl _) fun _ => .execute fun db => ⟨rfl, rfl, rfl⟩ }

/-! ## Changing the status -/

theorem find_withStatus (id : OperationId) (status : IntentStatus) (db : Database) (k : String) :
    (withStatus id status db).intents.find k = (db.intents.find k).map fun row =>
      if row.operationId = id.value then { row with status := encode status } else row :=
  Table.find_update (fun row => by split_ifs <;> rfl) _ _

theorem readIntentHeader_withStatus {db : Database} {id : OperationId} {header : IntentHeader}
    (h : db.readIntentHeader id = .ok (some header)) (status : IntentStatus) :
    (withStatus id status db).readIntentHeader id = .ok (some { header with status }) := by
  obtain ⟨row, hfind, hrow⟩ := Table.read_eq_ok_some_iff.mp h
  refine Table.read_eq_ok_some_iff.mpr ⟨{ row with status := encode status }, ?_,
    IntentRow.header_setStatus hrow status⟩
  rw [find_withStatus, hfind, Option.map_some, if_pos (Table.find_eq_some_iff.mp hfind).2]

theorem readIntentHeader_withStatus_ne {db : Database} {id id' : OperationId} (hne : id' ≠ id)
    (status : IntentStatus) :
    (withStatus id status db).readIntentHeader id' = db.readIntentHeader id' := by
  unfold Database.readIntentHeader Table.read
  rw [find_withStatus]
  cases hfind : db.intents.find id'.value with
  | none => rfl
  | some row =>
    have hkey : row.operationId = id'.value := (Table.find_eq_some_iff.mp hfind).2
    have hother : ¬ row.operationId = id.value := fun heq =>
      hne (congrArg OperationId.mk (hkey.symm.trans heq))
    rw [Option.map_some, if_neg hother]

theorem getIntent_withStatus {db : Database} {id : OperationId} {i : OperationIntent}
    (h : db.getIntent id = .ok (some i)) (status : IntentStatus) :
    (withStatus id status db).getIntent id = .ok (some { i with status }) := by
  obtain ⟨header, hheader, hselection, -, hrecorded⟩ := getIntent_eq_some_iff.mp h
  exact getIntent_eq_some_iff.mpr
    ⟨{ header with status }, readIntentHeader_withStatus hheader status, hselection, rfl, hrecorded⟩

theorem getIntent_withStatus_ne {db : Database} {id id' : OperationId} (hne : id' ≠ id)
    (status : IntentStatus) : (withStatus id status db).getIntent id' = db.getIntent id' := by
  unfold Database.getIntent
  rw [readIntentHeader_withStatus_ne hne]
  rfl

/-! ## Recording an intent -/

theorem nextTickTx_eq_ok {db db' : Database} {n : ℕ} (h : nextTickTx db = .ok (n, db')) :
    ∃ t, db.readTick = .ok t ∧ n = saturatingAdd t 1 ∧ db' = { db with tick := Nat.repr n } := by
  obtain ⟨t, _, hquery, hnext⟩ := Transaction.bind_eq_ok h
  obtain ⟨hread, rfl⟩ := query_eq_ok hquery
  obtain ⟨_, _, hwrite, hreturn⟩ := Transaction.bind_eq_ok hnext
  cases hwrite
  cases hreturn
  exact ⟨t, hread, rfl, rfl⟩

/-- What the transaction of `persist_intent` writes. -/
theorem recordIntent_eq_ok {db db' : Database} {selection : OperationSelection}
    {intent : OperationIntent} (h : recordIntent selection db = .ok (intent, db')) :
    ∃ t row inputs effects, db.readTick = .ok t ∧ intent = ⟨selection, .pending, saturatingAdd t 1⟩ ∧
      pendingRow selection intent.recordedAt = .ok row ∧
      (db.intentInputs.deleteWhere fun row =>
        row.operationId = selection.operationId.value).insertAll
          (Table.numbered (inputRow selection.operationId) 0 selection.selectedOutpoints) =
        some inputs ∧
      (db.intentEffects.deleteWhere fun row =>
        row.operationId = selection.operationId.value).insertAll
          (Table.numbered (effectRow selection.operationId) 0 selection.effects) = some effects ∧
      db' = { db with
        tick := Nat.repr intent.recordedAt
        intents := db.intents.replace row
        intentInputs := inputs
        intentEffects := effects } := by
  obtain ⟨recordedAt, _, htick, h₁⟩ := Transaction.bind_eq_ok h
  obtain ⟨t, hread, rfl, rfl⟩ := nextTickTx_eq_ok htick
  obtain ⟨row, _, hvalue, h₂⟩ := Transaction.bind_eq_ok h₁
  obtain ⟨hrow, rfl⟩ := value_eq_ok hvalue
  obtain ⟨_, _, hreplace, h₃⟩ := Transaction.bind_eq_ok h₂
  cases hreplace
  obtain ⟨_, _, hinputs, h₄⟩ := Transaction.bind_eq_ok h₃
  obtain ⟨found, _, hquery, hinsert⟩ := Transaction.bind_eq_ok hinputs
  obtain ⟨hfound, rfl⟩ := query_eq_ok hquery
  cases found with
  | none => cases hinsert
  | some inputs =>
    cases hinsert
    obtain ⟨_, _, heffects, h₅⟩ := Transaction.bind_eq_ok h₄
    obtain ⟨found, _, hquery', hinsert⟩ := Transaction.bind_eq_ok heffects
    obtain ⟨hfound', rfl⟩ := query_eq_ok hquery'
    cases found with
    | none => cases hinsert
    | some effects =>
      cases hinsert
      cases h₅
      exact ⟨t, row, inputs, effects, hread, rfl, hrow, Except.ok.inj hfound,
        Except.ok.inj hfound', rfl⟩

theorem mapM_inputRow (id : OperationId) (os : List OutPoint) :
    (Table.numbered (inputRow id) 0 os).mapM (fun row => decodeOutpoint row.outpoint) = .ok os := by
  refine Table.mapM_numbered (inputRow id) (fun row => decodeOutpoint row.outpoint) ?_ 0 os
  intro n o
  exact decodeOutpoint_display o

theorem effect_effectRow {id : OperationId} (n : ℕ) (effect : SelectionEffect) :
    (effectRow id n effect).effect = .ok effect := by
  unfold IntentEffectRow.effect effectRow
  simp only [if_true, decodeOutpoint_display, decode_encode, bind, Except.bind]
  rfl

theorem header_pendingRow {selection : OperationSelection} {recordedAt : ℕ} {row : IntentRow}
    (h : pendingRow selection recordedAt = .ok row) :
    row.operationId = selection.operationId.value ∧ row.header 2 =
      .ok ⟨selection.changeScopeId, .pending, recordedAt, selection.expiresAt⟩ := by
  obtain ⟨recorded, hrecorded, h⟩ := Txoscope.bind_eq_ok.mp h
  obtain ⟨expires, hexpires, h⟩ := Txoscope.bind_eq_ok.mp h
  cases h
  refine ⟨rfl, ?_⟩
  have hle := SqlInteger.bind_le hrecorded
  unfold IntentRow.header
  simp only [decode_encode, SqlInteger.get_of_bind hrecorded (hle.trans i64Max_le_u64Max),
    SqlInteger.getOption_of_bindOption hexpires i64Max_le_u64Max, bind, Except.bind]
  rfl

/-- A recorded intent is read as it was recorded. -/
theorem getIntent_recordIntent {db db' : Database} {selection : OperationSelection}
    {intent : OperationIntent} (h : recordIntent selection db = .ok (intent, db')) :
    db'.getIntent selection.operationId = .ok (some intent) := by
  obtain ⟨t, row, inputs, effects, -, rfl, hrow, hinputs, heffects, rfl⟩ := recordIntent_eq_ok h
  obtain ⟨hkey, hheader⟩ := header_pendingRow hrow
  refine getIntent_eq_some_iff.mpr
    ⟨⟨selection.changeScopeId, .pending, saturatingAdd t 1, selection.expiresAt⟩, ?_, ?_, rfl, rfl⟩
  · refine Table.read_eq_ok_some_iff.mpr ⟨row, ?_, hheader⟩
    rw [Table.find_replace, if_pos hkey.symm]
  · have hinputRows := Table.select_numbered IntentInputRow.position
      (fun _ _ => decide_eq_true rfl) (fun _ _ => rfl) hinputs
    have heffectRows := Table.select_numbered IntentEffectRow.position
      (fun _ _ => decide_eq_true rfl) (fun _ _ => rfl) heffects
    unfold Database.readIntentSelection Database.intentInputRows Database.intentEffectRows
    dsimp only
    rw [hinputRows, heffectRows, mapM_inputRow,
      Table.mapM_numbered _ _ effect_effectRow]
    rfl

/-- Recording an intent leaves the others as they are. -/
theorem getIntent_recordIntent_ne {db db' : Database} {selection : OperationSelection}
    {intent : OperationIntent} (h : recordIntent selection db = .ok (intent, db'))
    {id : OperationId} (hne : id ≠ selection.operationId) : db'.getIntent id = db.getIntent id := by
  obtain ⟨t, row, inputs, effects, -, -, hrow, hinputs, heffects, rfl⟩ := recordIntent_eq_ok h
  have hvalue : id.value ≠ selection.operationId.value := fun heq =>
    hne (congrArg OperationId.mk heq)
  have hother : ∀ k : String, decide (k = id.value) = true →
      decide (k = selection.operationId.value) = false := by
    intro k hk
    rw [of_decide_eq_true hk]
    exact decide_eq_false hvalue
  have hheader : ∀ k, k = id.value → (db.intents.replace row).find k = db.intents.find k := by
    rintro k rfl
    rw [Table.find_replace, (header_pendingRow hrow).1, if_neg hvalue]
  have hinputRows := Table.select_congr (Table.filter_numbered
    (q := fun row : IntentInputRow => row.operationId = id.value)
    (fun _ _ => decide_eq_false (Ne.symm hvalue)) (fun _ hrow => hother _ hrow) hinputs)
    fun a b => a.position ≤ b.position
  have heffectRows := Table.select_congr (Table.filter_numbered
    (q := fun row : IntentEffectRow => row.operationId = id.value)
    (fun _ _ => decide_eq_false (Ne.symm hvalue)) (fun _ hrow => hother _ hrow) heffects)
    fun a b => a.position ≤ b.position
  unfold Database.getIntent Database.readIntentHeader Database.readIntentSelection
    Database.intentInputRows Database.intentEffectRows Table.read
  dsimp only
  rw [hheader _ rfl, hinputRows, heffectRows]

/-! ## What an intent keeps -/

/-- The selection is the same, and the status has stayed or was pending. -/
def Kept (i i' : OperationIntent) : Prop :=
  i'.selection = i.selection ∧ (i'.status = i.status ∨ i.status = .pending)

/-- The intent recorded for `id` keeps its selection, and its status only moves on. -/
def KeepsIntent (id : OperationId) (db db' : Database) : Prop :=
  ∀ i, db.getIntent id = .ok (some i) → ∃ i', db'.getIntent id = .ok (some i') ∧ Kept i i'

theorem SameIntents.keepsIntent {db db' : Database} (h : SameIntents db db') (id : OperationId) :
    KeepsIntent id db db' := by
  intro i hi
  exact ⟨i, (h.getIntent id).trans hi, rfl, .inl rfl⟩

theorem KeepsIntent.refl (id : OperationId) (db : Database) : KeepsIntent id db db :=
  fun i hi => ⟨i, hi, rfl, .inl rfl⟩

theorem KeepsIntent.trans {id : OperationId} {db db' db'' : Database} (h : KeepsIntent id db db')
    (h' : KeepsIntent id db' db'') : KeepsIntent id db db'' := by
  intro i hi
  obtain ⟨i', hi', hselection, hstatus⟩ := h i hi
  obtain ⟨i'', hi'', hselection', hstatus'⟩ := h' i' hi'
  refine ⟨i'', hi'', hselection'.trans hselection, ?_⟩
  rcases hstatus with hstatus | hpending
  · rw [hstatus] at hstatus'
    exact hstatus'
  · exact .inr hpending

/-- A status is written to a recorded intent that was pending, or has it already. -/
theorem keepsIntent_withStatus {db : Database} {id : OperationId} {status : IntentStatus}
    (h : ∀ i, db.getIntent id = .ok (some i) → i.status = .pending ∨ i.status = status)
    (id' : OperationId) : KeepsIntent id' db (withStatus id status db) := by
  intro i hi
  by_cases hid : id' = id
  · subst hid
    refine ⟨{ i with status }, getIntent_withStatus hi status, rfl, ?_⟩
    rcases h i hi with hpending | hsame
    · exact .inr hpending
    · exact .inl hsame.symm
  · exact ⟨i, (getIntent_withStatus_ne hid status).trans hi, rfl, .inl rfl⟩

theorem nextTickTx_keepsIntent (id : OperationId) : nextTickTx.Preserves (KeepsIntent id) :=
  fun db n db' h => (sameIntents_framed.nextTick db n db' h).keepsIntent id

/-- The header of a recorded intent has its status. -/
theorem status_of_header {db : Database} {id : OperationId} {header : IntentHeader}
    (h : db.readIntentHeader id = .ok (some header)) {i : OperationIntent}
    (hi : db.getIntent id = .ok (some i)) : i.status = header.status := by
  obtain ⟨header', hheader', -, hstatus, -⟩ := getIntent_eq_some_iff.mp hi
  rw [h] at hheader'
  cases hheader'
  exact hstatus

theorem markIntentCommitted_keepsIntent (id id' : OperationId) :
    (markIntentCommitted id).Preserves (KeepsIntent id') := by
  intro db u db' h
  obtain ⟨header, _, hquery, h₁⟩ := Transaction.bind_eq_ok h
  obtain ⟨hheader, rfl⟩ := query_eq_ok hquery
  cases header with
  | none => cases h₁
  | some header =>
    obtain ⟨_, _, hrequire, h₂⟩ := Transaction.bind_eq_ok h₁
    obtain ⟨hnotFailed, rfl⟩ := require_eq_ok hrequire
    obtain ⟨_, _, hset, h₃⟩ := Transaction.bind_eq_ok h₂
    cases hset
    obtain ⟨n, db₁, htick, hreturn⟩ := Transaction.bind_eq_ok h₃
    cases hreturn
    refine (keepsIntent_withStatus (fun i hi => ?_) id').trans
      (nextTickTx_keepsIntent id' _ _ _ htick)
    have hstatus := status_of_header hheader hi
    cases hcase : i.status with
    | pending => exact .inl rfl
    | committed => exact .inr rfl
    | failed => exact (hnotFailed (hstatus.symm.trans hcase)).elim

theorem markIntentFailed_keepsIntent (id id' : OperationId) :
    (markIntentFailed id).Preserves (KeepsIntent id') := by
  intro db u db' h
  obtain ⟨header, _, hquery, h₁⟩ := Transaction.bind_eq_ok h
  obtain ⟨hheader, rfl⟩ := query_eq_ok hquery
  cases header with
  | none => cases h₁
  | some header =>
    have hfail : ∀ db₁, SameIntents db db₁ → header.status = .pending →
        (do setStatusTx id .failed; let _ ← nextTickTx : Tx Unit) db₁ = .ok (u, db') →
        KeepsIntent id' db db' := by
      intro db₁ hsame hpending hrun
      obtain ⟨_, _, hset, h₃⟩ := Transaction.bind_eq_ok hrun
      cases hset
      obtain ⟨n, db₂, htick, hreturn⟩ := Transaction.bind_eq_ok h₃
      cases hreturn
      refine (hsame.keepsIntent id').trans ((keepsIntent_withStatus (fun i hi => ?_) id').trans
        (nextTickTx_keepsIntent id' _ _ _ htick))
      rw [hsame.getIntent] at hi
      exact .inl ((status_of_header hheader hi).trans hpending)
    cases hstatus : header.status with
    | committed =>
      simp only [hstatus] at h₁
      cases h₁
    | failed =>
      simp only [hstatus] at h₁
      cases h₁
      exact KeepsIntent.refl id' _
    | pending =>
      simp only [hstatus] at h₁
      obtain ⟨phase, _, hphase, h₂⟩ := Transaction.bind_eq_ok h₁
      obtain ⟨-, rfl⟩ := query_eq_ok hphase
      cases phase with
      | none => exact hfail db (sameIntents_framed.refl db) hstatus h₂
      | some phase =>
        cases phase with
        | selected =>
          obtain ⟨released, db₁, hrelease, h₃⟩ := Transaction.bind_eq_ok h₂
          exact hfail db₁ (sameIntents_framed.releaseOperationTx _ _ _ _ _ hrelease) hstatus h₃
        | rollingBack => exact hfail db (sameIntents_framed.refl db) hstatus h₂
        | constructing | signed | broadcast | awaitingConfirmation | awaitingL2Finality => cases h₂

/-! ## Interleaved connections -/

/-- A transaction of `persist_intent` finds no intent recorded for its operation, or its own
selection still pending. Other statements may be executed at any time. -/
def MayRecord (db : Database) : Statement → Prop
  | .recordIntent selection => ∀ i, db.getIntent selection.operationId = .ok (some i) →
      i.selection = selection ∧ i.status = .pending
  | _ => True

/-- One statement. -/
theorem executeStatement_keepsIntent (id : OperationId) {db : Database} {st : Statement}
    (h : MayRecord db st) : KeepsIntent id db (executeStatement st db).2 := by
  cases st with
  | call c hc =>
    have hframed : Framed (KeepsIntent id) :=
      sameIntents_framed.mono (fun _ _ hsame => hsame.keepsIntent id) fun _ _ _ h₁ h₂ => h₁.trans h₂
    exact hframed.executeCall (fun id' => markIntentCommitted_keepsIntent id' id)
      (fun id' => markIntentFailed_keepsIntent id' id) c hc db
  | recordIntent selection =>
    change KeepsIntent id db ((recordIntent selection).commit db).2
    cases hrun : recordIntent selection db with
    | error e =>
      rw [commit_of_error hrun]
      exact KeepsIntent.refl id db
    | ok result =>
      obtain ⟨intent, db'⟩ := result
      rw [commit_of_ok hrun]
      intro i hi
      by_cases hid : id = selection.operationId
      · subst hid
        obtain ⟨hselection, hpending⟩ := h i hi
        obtain ⟨t, _, _, _, -, rfl, -⟩ := recordIntent_eq_ok hrun
        exact ⟨_, getIntent_recordIntent hrun, hselection.symm, .inr hpending⟩
      · exact ⟨i, (getIntent_recordIntent_ne hrun hid).trans hi, rfl, .inl rfl⟩
  | writeTick tick =>
    have hsame : SameIntents db { db with tick := Nat.repr tick } := ⟨rfl, rfl, rfl⟩
    exact hsame.keepsIntent id

/-- A run of connections. -/
theorem interleaving_keepsIntent (id : OperationId) {x y : Shared}
    (h : Interleaving MayRecord x y) : KeepsIntent id x.1 y.1 := by
  have hsteps : Program.Steps executeStatement MayRecord (fun _ _ => False) x.1 y.1 :=
    Program.steps_of_admitted h
  refine hsteps.relation (KeepsIntent.refl id) (fun _ _ _ h₁ h₂ => h₁.trans h₂) ?_ ?_
  · exact fun _ _ hst => executeStatement_keepsIntent id hst
  · exact fun _ _ hfalse => hfalse.elim

theorem persistIntent_eq (selection : OperationSelection) :
    persistIntent selection = Program.call (Statement.call (.getIntent selection.operationId) trivial)
      fun r => (Program.done r).bind (persistChecked selection) := rfl

/-- A `persist_intent` made while another selection is recorded is refused, whatever the other
connections do meanwhile. -/
theorem persistIntent_conflict {selection : OperationSelection} {r : DomainResult OperationIntent}
    {y z : Shared} (h : Program.Beside executeStatement MayRecord (SharedStep MayRecord)
      (persistIntent selection) y r z)
    {i : OperationIntent} (hi : y.1.getIntent selection.operationId = .ok (some i))
    (hne : i.selection ≠ selection) : r = .error (.intentConflict selection.operationId) := by
  generalize hp : persistIntent selection = p at h
  induction h generalizing i with
  | done r x => cases hp
  | others hstep _ ih =>
    obtain ⟨i', hi', hkept⟩ := interleaving_keepsIntent _ (.single hstep) i hi
    exact ih hi' (hkept.1 ▸ hne) hp
  | @call c k x z r hmay hrest ih =>
    rw [persistIntent_eq] at hp
    cases hp
    change Program.Beside executeStatement MayRecord (SharedStep MayRecord)
      ((Program.done (x.1.getIntent selection.operationId)).bind (persistChecked selection)) _ r z
      at hrest
    have hrefused : (Program.done (x.1.getIntent selection.operationId)).bind
        (persistChecked selection) =
          (Program.done (.error (.intentConflict selection.operationId)) :
            Connection OperationIntent) := by
      rw [hi]
      exact if_pos hne
    rw [hrefused] at hrest
    exact hrest.result_eq

/-- A recorded intent keeps its selection and its status only moves on, and `persist_intent` with
another selection is refused, in every run whose transactions of `persist_intent` find what their
checks found. -/
theorem intent_kept {x y : Shared} (h : Interleaving MayRecord x y) {id : OperationId}
    {i : OperationIntent} (hi : x.1.getIntent id = .ok (some i)) :
    (∃ i', y.1.getIntent id = .ok (some i') ∧ Kept i i') ∧
      ∀ selection r z, selection.operationId = id → selection ≠ i.selection →
        Program.Beside executeStatement MayRecord (SharedStep MayRecord) (persistIntent selection)
          y r z → r = .error (.intentConflict id) := by
  obtain ⟨i', hi', hkept⟩ := interleaving_keepsIntent id h i hi
  refine ⟨⟨i', hi', hkept⟩, ?_⟩
  rintro selection r z rfl hne hrun
  exact persistIntent_conflict hrun hi' fun heq => hne (heq.symm.trans hkept.1)

/-! ## Two connections that overwrite each other -/

/-- A session of `persist_intent` whose check found nothing. -/
def unrecorded (selection : OperationSelection) : Connection Unit :=
  (persistChecked selection none).attempt >>= fun _ => pure ()

theorem check_step {ok : Database → Statement → Prop} {db : Database}
    {selection : OperationSelection} (hn : db.getIntent selection.operationId = .ok none)
    (hok : ok db (.call (.getIntent selection.operationId) trivial))
    (ps qs : List (Connection Unit)) :
    SharedStep ok (db, ps ++ session (.persistIntent selection) :: qs)
      (db, ps ++ unrecorded selection :: qs) := by
  have hstep : SharedStep ok (db, ps ++ session (.persistIntent selection) :: qs)
      (db, ps ++ (((Program.done (db.getIntent selection.operationId)).bind
        (persistChecked selection)).attempt >>= fun _ => pure ()) :: qs) :=
    Program.Admitted.call (c := Statement.call (.getIntent selection.operationId) trivial) hok
  rw [hn] at hstep
  exact hstep

theorem record_step {ok : Database → Statement → Prop} {db : Database}
    {selection : OperationSelection} (hok : ok db (.recordIntent selection))
    (ps qs : List (Connection Unit)) :
    SharedStep ok (db, ps ++ unrecorded selection :: qs)
      ((executeStatement (.recordIntent selection) db).2, ps ++ pure () :: qs) :=
  Program.Admitted.call (c := Statement.recordIntent selection) hok

theorem commit_step {ok : Database → Statement → Prop} {db : Database} {id : OperationId}
    (h : ok db (.call (.markIntentCommitted id) trivial)) (ps qs : List (Connection Unit)) :
    SharedStep ok (db, ps ++ session (.markIntentCommitted id) :: qs)
      ((executeStatement (.call (.markIntentCommitted id) trivial) db).2, ps ++ pure () :: qs) :=
  Program.Admitted.call (c := Statement.call (.markIntentCommitted id) trivial) h

theorem start_step {ok : Database → Statement → Prop} (db : Database) (c : StoreCall)
    (ps : List (Connection Unit)) : SharedStep ok (db, ps) (db, session c :: ps) := .start ⟨c, rfl⟩

namespace Sample

/-- A selection of one output under the operation id `send`. -/
def sending (txid : String) : OperationSelection where
  operationId := ⟨"send"⟩
  selectedOutpoints := [⟨txid, 0⟩]
  changeScopeId := ⟨"scope"⟩
  effects := [⟨⟨txid, 0⟩, .btcSend⟩]
  expiresAt := none

/-- The first connection has recorded its intent. -/
def recorded : Database := (executeStatement (.recordIntent (sending "aa")) Database.empty).2

/-- And it has been committed. -/
def committed : Database :=
  (executeStatement (.call (.markIntentCommitted ⟨"send"⟩) trivial) recorded).2

/-- The second connection, whose check was made before all that, executes its transaction. -/
def overwritten : Database := (executeStatement (.recordIntent (sending "bb")) committed).2

end Sample

open SqliteStateStore.Sample

theorem intent_kept_sample :
    (∃ i', committed.getIntent ⟨"send"⟩ = .ok (some i') ∧ Kept ⟨sending "aa", .pending, 1⟩ i') ∧
      ∀ selection r z, selection.operationId = ⟨"send"⟩ → selection ≠ sending "aa" →
        Program.Beside executeStatement MayRecord (SharedStep MayRecord) (persistIntent selection)
          (committed, [pure ()]) r z → r = .error (.intentConflict ⟨"send"⟩) := by
  have hrun : Interleaving MayRecord (recorded, []) (committed, [pure ()]) :=
    .head (start_step _ (.markIntentCommitted ⟨"send"⟩) []) (.single (commit_step trivial [] []))
  exact intent_kept hrun (by rfl)

/-- Two connections both find no intent; the first records and commits its own, and the second
then replaces it. -/
theorem intent_overwritten :
    ∃ x y : Shared, Interleaving anyStatement (Database.empty, []) x ∧
      Interleaving anyStatement x y ∧ ∃ i i', x.1.getIntent ⟨"send"⟩ = .ok (some i) ∧
        i.status = .committed ∧ y.1.getIntent ⟨"send"⟩ = .ok (some i') ∧
        i'.selection ≠ i.selection ∧ i'.status = .pending := by
  have hnone : ∀ txid, Database.empty.getIntent (sending txid).operationId = .ok none :=
    fun _ => rfl
  refine ⟨(committed, [pure (), unrecorded (sending "bb"), pure ()]),
    (overwritten, [pure (), pure (), pure ()]), ?_, ?_, ⟨sending "aa", .committed, 1⟩,
    ⟨sending "bb", .pending, 3⟩, by rfl, rfl, by rfl, by decide, rfl⟩
  · refine .head (start_step _ (.persistIntent (sending "aa")) []) ?_
    refine .head (check_step (hnone "aa") trivial [] []) ?_
    refine .head (start_step _ (.persistIntent (sending "bb")) _) ?_
    refine .head (check_step (hnone "bb") trivial [] [unrecorded (sending "aa")]) ?_
    refine .head (record_step trivial [unrecorded (sending "bb")] []) ?_
    refine .head (start_step _ (.markIntentCommitted ⟨"send"⟩) _) ?_
    exact .single (commit_step trivial [] [unrecorded (sending "bb"), pure ()])
  · exact .single (record_step trivial [pure ()] [pure ()])

end SqliteStateStore

end Txoscope
