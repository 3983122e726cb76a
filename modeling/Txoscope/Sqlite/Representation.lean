import Txoscope.Memory.Refinement
import Txoscope.Sqlite.Intents

/-!
# The ledger a database holds

`Represents` says that the reads of a database return the records of a ledger. The parts of the
transactions are proved here to change what is held as the ledger does: an output is written, a lock
is deleted, an operation is recorded, the outputs bound to an operation are released or advanced,
and a reconciliation plan is applied. Numbers have to fit the integer columns.
-/

namespace Txoscope

open SqliteCodec Transaction

namespace Ledger

/-! ## Changing one cell -/

/-- One cell replaced. -/
def setCell (l : Ledger) (o : OutPoint) (c : Cell) : Ledger :=
  { l with cell := Function.update l.cell o c }

theorem utxo_setCell (l : Ledger) (o : OutPoint) (c : Cell) :
    (l.setCell o c).utxo = Function.update l.utxo o c.utxo := by
  funext o'
  unfold utxo setCell
  by_cases h : o' = o
  · subst h
    simp
  · simp [h]

theorem lock_setCell (l : Ledger) (o : OutPoint) (c : Cell) :
    (l.setCell o c).lock = Function.update l.lock o c.lock := by
  funext o'
  unfold lock setCell
  by_cases h : o' = o
  · subst h
    simp
  · simp [h]

theorem setCell_of_eq {l : Ledger} {o : OutPoint} {c : Cell} (h : c = l.cell o) :
    l.setCell o c = l := by
  unfold setCell
  rw [h, Function.update_eq_self]

@[simp] theorem cell_setCell_self (l : Ledger) (o : OutPoint) (c : Cell) :
    (l.setCell o c).cell o = c := Function.update_self _ _ _

@[simp] theorem setCell_setCell (l : Ledger) (o : OutPoint) (c c' : Cell) :
    (l.setCell o c).setCell o c' = l.setCell o c' := by
  unfold setCell
  simp only [Function.update_idem]

end Ledger

/-! ## Locks on managed outputs -/

/-- A lock is on a managed output. -/
def Cell.LockManaged (c : Cell) : Prop := c.lock.isSome = true → c.utxo.isSome = true

namespace Cell.LockManaged

variable {c : Cell}

theorem release (h : c.LockManaged) (id : OperationId) : (c.release id).LockManaged := by
  intro hlock
  obtain ⟨k, hk⟩ := Option.isSome_iff_exists.mp hlock
  refine (Option.isSome_map ..).trans (h (Option.isSome_iff_exists.mpr ⟨k, ?_⟩))
  exact (Option.filter_eq_some_iff.mp hk).1

theorem advance (h : c.LockManaged) (id : OperationId) (phase : OperationPhase) :
    (c.advance id phase).LockManaged := fun hlock =>
  (Option.isSome_map ..).trans (h ((Option.isSome_map ..).symm.trans hlock))

theorem hold (h : c.LockManaged) (batch : StateBatch) (tick : ℕ) (purpose : LockPurpose) :
    (c.hold batch tick purpose).LockManaged := by
  unfold Cell.hold
  split
  · exact h
  · split_ifs
    · exact h
    · exact fun _ => rfl

theorem act (h : c.LockManaged) (a : ReconciliationAction) : (c.act a).LockManaged := by
  cases a with
  | discoverNew observed =>
    change (if c.utxo.isSome then c else _ : Cell).LockManaged
    split_ifs
    · exact h
    · exact fun _ => rfl
  | refreshObserved observed => exact h
  | markSpent outpoint txid => exact fun hlock => nomatch hlock
  | updateOnchainState | reportConflict | clearConflict | updateAvailability | markMissing =>
    exact fun hlock => (Option.isSome_map ..).trans (h hlock)

theorem foldl_act (h : c.LockManaged) (as : List ReconciliationAction) :
    (as.foldl Cell.act c).LockManaged := by
  induction as generalizing c with
  | nil => exact h
  | cons a as ih => exact ih (h.act a)

end Cell.LockManaged

/-- The numbers of an action fit the integer columns. -/
def ReconciliationAction.Fits : ReconciliationAction → Prop
  | discoverNew observed => observed.valueSats ≤ i64Max
  | reportConflict _ _ recordedAt => recordedAt ≤ i64Max
  | _ => True

instance : DecidablePred ReconciliationAction.Fits := fun a => by
  cases a <;> unfold ReconciliationAction.Fits <;> infer_instance

namespace SqliteStateStore

/-- The database holds the records of the ledger. Nothing but the reads is asked of the rows, except
where they are listed. -/
structure Represents (db : Database) (l : Ledger) : Prop where
  account : ∀ id, db.readAccount id = .ok (l.account id)
  scope : ∀ id, db.readScope id = .ok (l.scope id)
  utxo : Table.Stores UtxoRow.toUtxo OutPoint.display db.utxos l.utxo
  lock : ∀ o, db.getLock o = .ok (l.lock o)
  operation : Table.Stores OperationRow.toOperation OperationId.value db.operations l.operation
  intent : ∀ id, db.getIntent id = .ok (l.intent id)
  tick : db.readTick = .ok l.tick

theorem represents_empty : Represents Database.empty Ledger.empty where
  account _ := rfl
  scope _ := rfl
  utxo := ⟨fun _ hrow => (nomatch hrow), fun _ => rfl⟩
  lock _ := rfl
  operation := ⟨fun _ hrow => (nomatch hrow), fun _ => rfl⟩
  intent _ := rfl
  tick := rfl

theorem fits_none : SqlInteger.Fits none := by simp [SqlInteger.Fits]

theorem operationId_injective : Function.Injective OperationId.value := by
  rintro ⟨a⟩ ⟨b⟩ rfl
  rfl

theorem fits_advanceBinding {u : ManagedUtxo} (h : u.Fits) (phase : OperationPhase) :
    (u.advanceBinding phase).Fits := by
  unfold ManagedUtxo.advanceBinding
  cases u.operationBinding with
  | none => exact h
  | some b =>
    dsimp only
    split_ifs <;> exact h
namespace Represents

variable {db : Database} {l : Ledger} {o : OutPoint} {u : ManagedUtxo} {id : OperationId}

/-! ## What is held -/

/-- A managed output is kept under its own outpoint, and its numbers fit. -/
theorem utxo_fits (h : Represents db l) (hu : l.utxo o = some u) : u.outpoint = o ∧ u.Fits := by
  obtain ⟨row, hfind, hrow⟩ := h.utxo.some_iff.mp hu
  have hrecords := UtxoRow.toUtxo_eq_ok_iff.mp hrow
  have hsame := (Table.find_eq_some_iff.mp hfind).2
  exact ⟨OutPoint.display_injective (hrecords.outpoint.symm.trans hsame), hrecords.fits⟩

theorem operation_keyed (h : Represents db l) {op : PersistedOperation}
    (hop : l.operation id = some op) : op.operationId = id := by
  obtain ⟨row, hfind, hrow⟩ := h.operation.some_iff.mp hop
  have hkey := (OperationRow.toOperation_eq_ok hrow).1
  exact operationId_injective (hkey.symm.trans (Table.find_eq_some_iff.mp hfind).2)

theorem intent_keyed (h : Represents db l) {i : OperationIntent} (hi : l.intent id = some i) :
    i.selection.operationId = id := by
  have hget : db.getIntent id = .ok (some i) := (h.intent id).trans (congrArg Except.ok hi)
  obtain ⟨header, -, hselection, -⟩ := getIntent_eq_some_iff.mp hget
  obtain ⟨outpoints, -, hselection⟩ := Txoscope.bind_eq_ok.mp hselection
  obtain ⟨effects, -, hselection⟩ := Txoscope.bind_eq_ok.mp hselection
  rw [← Except.ok.inj hselection]

theorem query_utxo (h : Represents db l) (o : OutPoint) :
    query (fun db : Database => db.getUtxo o) db = .ok (l.utxo o, db) :=
  query_of_ok (f := fun db : Database => db.getUtxo o) (h.utxo.read o)

theorem query_lock (h : Represents db l) (o : OutPoint) :
    query (fun db : Database => db.getLock o) db = .ok (l.lock o, db) :=
  query_of_ok (f := fun db : Database => db.getLock o) (h.lock o)

theorem query_operation (h : Represents db l) (id : OperationId) :
    query (fun db : Database => db.readOperation id) db = .ok (l.operation id, db) :=
  query_of_ok (f := fun db : Database => db.readOperation id) (h.operation.read id)

/-! ## Writes -/

/-- The next tick is written. -/
theorem nextTick (h : Represents db l) :
    ∃ db', nextTickTx db = .ok (saturatingAdd l.tick 1, db') ∧ Represents db' l.nextTick := by
  refine ⟨_, nextTickTx_of_ok h.tick, ?_⟩
  exact ⟨h.account, h.scope, h.utxo, h.lock, h.operation, h.intent,
    db.readTick_write (saturatingAdd_le _ _)⟩

/-- The last step of a transaction. -/
theorem tick_of_ok (h : Represents db l) :
    ∃ db', (do let _ ← nextTickTx : Tx Unit) db = .ok ((), db') ∧ Represents db' l.nextTick := by
  obtain ⟨db', hrun, h'⟩ := h.nextTick
  exact ⟨db', bind_of_ok hrun, h'⟩

/-- An output is written under its own outpoint. -/
theorem writeUtxo (h : Represents db l) (hfits : u.Fits) :
    ∃ db', writeUtxoTx u db = .ok ((), db') ∧
      Represents db' (l.setCell u.outpoint { l.cell u.outpoint with utxo := some u }) := by
  obtain ⟨row, hrow, hread⟩ := UtxoRow.ofUtxo_of_fits hfits
  refine ⟨_, bind_of_ok (value_of_ok hrow db), h.account, h.scope, ?_, ?_, h.operation, h.intent,
    h.tick⟩
  · rw [Ledger.utxo_setCell]
    exact h.utxo.replace OutPoint.display_injective
      (UtxoRow.toUtxo_eq_ok_iff.mp hread).outpoint hread
  · rw [Ledger.lock_setCell, show ({ l.cell u.outpoint with utxo := some u } : Cell).lock =
      l.lock u.outpoint from rfl, Function.update_eq_self]
    exact h.lock

/-- A managed output is written back changed. -/
theorem rewriteUtxo (h : Represents db l) {f : ManagedUtxo → ManagedUtxo}
    (hu : l.utxo o = some u) (houtpoint : (f u).outpoint = u.outpoint) (hfits : (f u).Fits) :
    ∃ db', rewriteUtxoTx f o db = .ok ((), db') ∧
      Represents db' (l.setCell o { l.cell o with utxo := some (f u) }) := by
  obtain ⟨rfl, -⟩ := h.utxo_fits hu
  obtain ⟨db', hrun, h'⟩ := h.writeUtxo hfits
  rw [houtpoint] at h'
  refine ⟨db', ?_, h'⟩
  unfold rewriteUtxoTx
  rw [bind_of_ok (h.query_utxo _), hu]
  exact hrun

/-- An output is written back changed, if it is managed. -/
theorem modifyUtxo (h : Represents db l) (o : OutPoint) {f : ManagedUtxo → ManagedUtxo}
    (houtpoint : ∀ u, (f u).outpoint = u.outpoint) (hfits : ∀ u, u.Fits → (f u).Fits) :
    ∃ db', modifyUtxoTx o f db = .ok ((), db') ∧
      Represents db' (l.setCell o { l.cell o with utxo := (l.utxo o).map f }) := by
  unfold modifyUtxoTx
  rw [bind_of_ok (h.query_utxo o)]
  cases hu : l.utxo o with
  | none =>
    refine ⟨db, rfl, ?_⟩
    have hsame : l.setCell o { l.cell o with utxo := none } = l :=
      Ledger.setCell_of_eq (Cell.ext hu.symm rfl)
    rw [Option.map_none, hsame]
    exact h
  | some u =>
    obtain ⟨rfl, hu'⟩ := h.utxo_fits hu
    obtain ⟨db', hrun, h'⟩ := h.writeUtxo (hfits u hu')
    rw [houtpoint] at h'
    exact ⟨db', hrun, h'⟩

/-- A lock is deleted. -/
theorem deleteLock (h : Represents db l) (o : OutPoint) :
    ∃ db', deleteLockTx o db = .ok ((), db') ∧
      Represents db' (l.setCell o { l.cell o with lock := none }) := by
  refine ⟨_, rfl, h.account, h.scope, ?_, fun o' => ?_, h.operation, h.intent, h.tick⟩
  · rw [Ledger.utxo_setCell, show ({ l.cell o with lock := none } : Cell).utxo = l.utxo o from rfl,
      Function.update_eq_self]
    exact h.utxo
  · rw [Ledger.lock_setCell, Function.update_apply]
    refine (Table.read_deleteKey LockRow.toLock db.locks o.display o'.display).trans ?_
    simp only [OutPoint.display_inj]
    split_ifs
    · rfl
    · exact h.lock o'

/-- An operation is recorded at the next tick. -/
theorem recordOperation (h : Represents db l) (htick : l.tick < i64Max) (id : OperationId)
    (phase : OperationPhase) {expiresAt : Option ℕ} (hexpires : SqlInteger.Fits expiresAt) :
    ∃ db', recordOperationTx id phase expiresAt db = .ok ((), db') ∧
      Represents db' (l.setOperation id phase expiresAt) := by
  obtain ⟨db₁, hnext, h₁⟩ := h.nextTick
  have hupdated : saturatingAdd l.tick 1 ≤ i64Max := by
    unfold saturatingAdd
    omega
  have hfits : PersistedOperation.Fits ⟨id, phase, saturatingAdd l.tick 1, expiresAt⟩ :=
    ⟨hupdated, hexpires⟩
  obtain ⟨row, hrow, hkey, hread⟩ := OperationRow.ofOperation_of_fits hfits
  refine ⟨{ db₁ with operations := db₁.operations.replace row }, ?_, h₁.account, h₁.scope, h₁.utxo,
    h₁.lock, ?_, h₁.intent, h₁.tick⟩
  · unfold recordOperationTx
    rw [bind_of_ok hnext, bind_of_ok (value_of_ok hrow db₁)]
    rfl
  · exact h₁.operation.replace operationId_injective hkey hread

/-! ## Bound outputs -/

/-- The selected outpoints are those bound to the operation, each once. -/
theorem boundOutpoints (h : Represents db l) (id : OperationId) :
    ∃ outpoints, db.boundOutpoints id = .ok outpoints ∧
      Enumerates outpoints (l.boundOutpoints id) := by
  have hbound : ∀ (row : UtxoRow) (u : ManagedUtxo), row.toUtxo = .ok u →
      decide (row.bindingOperationId = some id.value) = u.boundTo id := by
    intro row u hrow
    rw [(UtxoRow.toUtxo_eq_ok_iff.mp hrow).bindingOperationId, Bool.eq_iff_iff,
      ManagedUtxo.boundTo_iff, decide_eq_true_eq]
    cases u.operationBinding with
    | none => simp
    | some b => simp [operationId_injective.eq_iff]
  have hlabel : ∀ (row : UtxoRow) (u : ManagedUtxo), row.toUtxo = .ok u →
      u.outpoint.display = row.outpoint :=
    fun row u hrow => (UtxoRow.toUtxo_eq_ok_iff.mp hrow).outpoint.symm
  obtain ⟨utxos, hdecode, hnodup, hmem⟩ :=
    h.utxo.select (fun a b => a.outpoint ≤ b.outpoint) hbound hlabel
  refine ⟨utxos.map (·.outpoint), ?_, ?_, fun o => ?_⟩
  · unfold Database.boundOutpoints
    rw [Table.mapM_eq_ok_iff, List.forall₂_map_right_iff]
    refine hdecode.imp fun row u hrow => ?_
    exact decodeOutpoint_eq_ok_iff.mpr (UtxoRow.toUtxo_eq_ok_iff.mp hrow).outpoint
  · have hdisplay : utxos.map (fun u => u.outpoint.display) =
        (utxos.map (·.outpoint)).map OutPoint.display := by simp
    rw [hdisplay] at hnodup
    exact hnodup.of_map _
  · rw [List.mem_map]
    constructor
    · rintro ⟨u, hu, rfl⟩
      obtain ⟨hb, o, ho⟩ := (hmem u).mp hu
      obtain ⟨rfl, -⟩ := h.utxo_fits ho
      exact ⟨u, ho, hb⟩
    · rintro ⟨u, hu, hb⟩
      exact ⟨u, (hmem u).mpr ⟨hb, o, hu⟩, (h.utxo_fits hu).1⟩

/-- Steps that each change one cell, one after the other. -/
theorem forM_updateAll {β : Type} (step : β → Tx Unit) (key : β → OutPoint) (f : Cell → β → Cell)
    (P : Cell → Prop) (hP : ∀ c b, P c → P (f c b)) {bs : List β}
    (hstep : ∀ b ∈ bs, ∀ {db l}, Represents db l → P (l.cell (key b)) →
      ∃ db', step b db = .ok ((), db') ∧
        Represents db' (l.setCell (key b) (f (l.cell (key b)) b)))
    (h : Represents db l) (hbs : ∀ b ∈ bs, P (l.cell (key b))) :
    ∃ db', bs.forM step db = .ok ((), db') ∧
      Represents db' { l with cell := Pointwise.updateAll key f bs l.cell } := by
  induction bs generalizing db l with
  | nil => exact ⟨db, rfl, h⟩
  | cons b bs ih =>
    obtain ⟨db₁, hfirst, h₁⟩ := hstep b List.mem_cons_self h (hbs b List.mem_cons_self)
    have hkept : ∀ b' ∈ bs, P ((l.setCell (key b) (f (l.cell (key b)) b)).cell (key b')) := by
      intro b' hb'
      change P (Function.update l.cell (key b) _ (key b'))
      rw [Function.update_apply]
      split_ifs
      · exact hP _ b (hbs b List.mem_cons_self)
      · exact hbs b' (List.mem_cons_of_mem _ hb')
    obtain ⟨db', hrest, h'⟩ := ih (fun b' hb' => hstep b' (List.mem_cons_of_mem _ hb')) h₁ hkept
    exact ⟨db', (bind_of_ok hfirst).trans hrest, h'⟩

/-- The outputs bound to an operation are written back changed. -/
theorem rewriteBound (h : Represents db l) (id : OperationId) {f : ManagedUtxo → ManagedUtxo}
    (houtpoint : ∀ u, (f u).outpoint = u.outpoint) (hfits : ∀ u, u.Fits → (f u).Fits) :
    ∃ outpoints db', db.boundOutpoints id = .ok outpoints ∧
      Enumerates outpoints (l.boundOutpoints id) ∧
      outpoints.forM (rewriteUtxoTx f) db = .ok ((), db') ∧
      Represents db' { l with cell := fun o => { l.cell o with
        utxo := (l.utxo o).map fun u => if u.boundTo id then f u else u } } := by
  obtain ⟨outpoints, hselect, hnodup, hmem⟩ := h.boundOutpoints id
  have hstep : ∀ o ∈ outpoints, ∀ {db : Database} {l : Ledger}, Represents db l →
      (l.cell o).utxo.isSome = true → ∃ db', rewriteUtxoTx f o db = .ok ((), db') ∧
        Represents db' (l.setCell o { l.cell o with utxo := (l.cell o).utxo.map f }) := by
    intro o _ db l h hmanaged
    obtain ⟨u, hu⟩ := Option.isSome_iff_exists.mp hmanaged
    have hrewrite := h.rewriteUtxo (o := o) hu (houtpoint u) (hfits u (h.utxo_fits hu).2)
    rw [hu]
    exact hrewrite
  have hbound : ∀ o ∈ outpoints, (l.cell o).utxo.isSome = true := by
    intro o ho
    obtain ⟨u, hu, -⟩ := (hmem o).mp ho
    exact Option.isSome_iff_exists.mpr ⟨u, hu⟩
  obtain ⟨db', hrun, h'⟩ := forM_updateAll (rewriteUtxoTx f) (fun o => o)
    (fun c _ => { c with utxo := c.utxo.map f }) (fun c => c.utxo.isSome = true)
    (fun c _ hc => (Option.isSome_map ..).trans hc) hstep h hbound
  refine ⟨outpoints, db', hselect, ⟨hnodup, hmem⟩, hrun, ?_⟩
  convert h' using 2
  funext o
  have hkeys : (outpoints.map fun o => o).Nodup := by simpa using hnodup
  rw [Pointwise.updateAll_of_nodup _ hkeys]
  rcases Pointwise.updateEach_cases (fun o : OutPoint => o)
    (fun _ c => { c with utxo := c.utxo.map f }) outpoints l.cell o with
    ⟨o', ho', rfl, heq⟩ | ⟨hnone, heq⟩
  · obtain ⟨u, hu, hb⟩ := (hmem o').mp ho'
    rw [heq]
    exact Cell.ext (by simp [Ledger.utxo, hu, hb]) rfl
  · rw [heq]
    refine Cell.ext ?_ rfl
    change ((l.cell o).utxo).map _ = (l.cell o).utxo
    cases hu : (l.cell o).utxo with
    | none => rfl
    | some u =>
      have hb : ¬ u.boundTo id = true := fun hb => hnone o ((hmem o).mpr ⟨u, hu, hb⟩) rfl
      rw [Option.map_some, if_neg hb]

/-! ## Releases and advances -/

/-- A release unbinds the bound outputs, deletes the locks and records the operation. -/
theorem releaseOperation (h : Represents db l) (htick : l.tick < i64Max) (id : OperationId)
    (phase : OperationPhase) :
    ∃ outpoints db', releaseOperationTx id phase db = .ok (outpoints, db') ∧
      Enumerates outpoints (l.boundOutpoints id) ∧
        Represents db' (l.releaseOperation id phase) := by
  obtain ⟨outpoints, db₁, hselect, henum, hrewrite, h₁⟩ :=
    h.rewriteBound id (f := ManagedUtxo.releaseBinding) (fun _ => rfl) fun _ hu => hu
  have hdelete : Represents { db₁ with
      locks := db₁.locks.deleteWhere fun row => row.operationId = id.value }
      { l with cell := fun o => (l.cell o).release id } := by
    refine ⟨h₁.account, h₁.scope, h₁.utxo, fun o => ?_, h₁.operation, h₁.intent, h₁.tick⟩
    have hsame : ∀ (row : LockRow) (lock : OperationLock), row.toLock = .ok lock →
        decide (row.operationId = id.value) = decide (lock.operationId = id) := by
      intro row lock hrow
      rw [(LockRow.toLock_eq_ok hrow).1, decide_eq_decide]
      exact operationId_injective.eq_iff
    refine (Table.read_deleteWhere hsame (h₁.lock o)).trans (congrArg Except.ok ?_)
    change (l.lock o).filter _ = (l.lock o).filter _
    simp
  obtain ⟨db', hrecord, h'⟩ := hdelete.recordOperation htick id phase fits_none
  refine ⟨outpoints, db', ?_, henum, h'⟩
  unfold releaseOperationTx
  rw [bind_of_ok (query_of_ok (f := fun db : Database => db.boundOutpoints id) hselect),
    bind_of_ok hrewrite]
  refine (bind_of_ok (m := execute _) rfl).trans ?_
  rw [bind_of_ok hrecord]
  rfl

/-- An advance moves the bound outputs on, lets the locks stand for good and records the
operation. -/
theorem advanceOperation (h : Represents db l) (htick : l.tick < i64Max) (id : OperationId)
    (phase : OperationPhase) :
    ∃ outpoints db', advanceOperationTx id phase db = .ok (outpoints, db') ∧
      Enumerates outpoints (l.boundOutpoints id) ∧
        Represents db' (l.advanceOperation id phase) := by
  obtain ⟨outpoints, db₁, hselect, henum, hrewrite, h₁⟩ :=
    h.rewriteBound id (f := fun u => u.advanceBinding phase)
      (fun u => u.advanceBinding_outpoint phase)
      fun _ hu => fits_advanceBinding hu phase
  have hkey : ∀ row : LockRow, (if row.operationId = id.value then { row with expiresAt := none }
      else row).outpoint = row.outpoint := fun row => by split_ifs <;> rfl
  have hupdate : Represents { db₁ with
      locks := db₁.locks.update (fun row =>
        if row.operationId = id.value then { row with expiresAt := none } else row) hkey }
      { l with cell := fun o => (l.cell o).advance id phase } := by
    refine ⟨h₁.account, h₁.scope, h₁.utxo, fun o => ?_, h₁.operation, h₁.intent, h₁.tick⟩
    refine Table.read_update (g := fun lock : OperationLock =>
      if lock.operationId = id then { lock with expiresAt := none } else lock) hkey ?_ (h₁.lock o)
    intro row lock hrow
    obtain ⟨hid, hclear⟩ := LockRow.toLock_eq_ok hrow
    have hiff : row.operationId = id.value ↔ lock.operationId = id := by
      rw [hid, operationId_injective.eq_iff]
    by_cases hlock : lock.operationId = id
    · rw [if_pos (hiff.mpr hlock), if_pos hlock]
      exact hclear
    · rw [if_neg (hiff.not.mpr hlock), if_neg hlock]
      exact hrow
  obtain ⟨db', hrecord, h'⟩ := hupdate.recordOperation htick id phase fits_none
  refine ⟨outpoints, db', ?_, henum, h'⟩
  unfold advanceOperationTx
  rw [bind_of_ok (query_of_ok (f := fun db : Database => db.boundOutpoints id) hselect),
    bind_of_ok hrewrite]
  refine (bind_of_ok (m := execute _) rfl).trans ?_
  rw [bind_of_ok hrecord]
  rfl

/-! ## Reconciliation -/

theorem unchanged (h : Represents db l) {c : Cell} (hc : c = l.cell o) :
    Represents db (l.setCell o c) := by
  rw [Ledger.setCell_of_eq hc]
  exact h

/-- A managed output is reported spent, and its lock is deleted. -/
theorem markSpent (h : Represents db l) (hu : l.utxo o = some u) (hfits : u.Fits) :
    ∃ db', (do writeUtxoTx u.markSpent; deleteLockTx o : Tx Unit) db = .ok ((), db') ∧
      Represents db' (l.setCell o ⟨some u.markSpent, none⟩) := by
  obtain ⟨rfl, -⟩ := h.utxo_fits hu
  obtain ⟨db₁, hwrite, h₁⟩ := h.writeUtxo (u := u.markSpent) hfits
  obtain ⟨db', hdelete, h'⟩ := h₁.deleteLock u.outpoint
  refine ⟨db', (bind_of_ok hwrite).trans hdelete, ?_⟩
  rw [show u.markSpent.outpoint = u.outpoint from rfl, Ledger.cell_setCell_self,
    Ledger.setCell_setCell] at h'
  exact h'

/-- An action acts on its own cell. -/
theorem applyAction (h : Represents db l) {a : ReconciliationAction} (hfits : a.Fits)
    (hmanaged : (l.cell a.outpoint).LockManaged) :
    ∃ db', applyActionTx a db = .ok ((), db') ∧
      Represents db' (l.setCell a.outpoint ((l.cell a.outpoint).act a)) := by
  cases a with
  | discoverNew observed =>
    rw [applyActionTx, bind_of_ok (h.query_utxo _)]
    cases hu : l.utxo observed.outpoint with
    | some u =>
      have hsome : (l.cell observed.outpoint).utxo.isSome = true :=
        Option.isSome_iff_exists.mpr ⟨u, hu⟩
      exact ⟨db, rfl, h.unchanged (if_pos hsome)⟩
    | none =>
      have hnone : ¬ (l.cell observed.outpoint).utxo.isSome = true := by
        rw [show (l.cell observed.outpoint).utxo = none from hu]
        exact Bool.false_ne_true
      have hact : (l.cell observed.outpoint).act (.discoverNew observed) = _ := if_neg hnone
      have hwritten := h.writeUtxo (u := ManagedUtxo.discoverFromObserved observed.outpoint
        observed.accountId observed.scopeId observed.valueSats observed.confirmation)
        ⟨hfits, fun _ hm => nomatch hm⟩
      change ∃ db', _ ∧ Represents db' (l.setCell observed.outpoint
        ((l.cell observed.outpoint).act (.discoverNew observed)))
      rw [hact]
      exact hwritten
  | refreshObserved observed => exact ⟨db, rfl, h.unchanged rfl⟩
  | updateOnchainState outpoint newState =>
    refine h.modifyUtxo outpoint (fun u => ?_) fun u hu => ?_
    · split_ifs <;> rfl
    · split_ifs <;> exact hu
  | markSpent outpoint txid =>
    rw [applyActionTx, bind_of_ok (h.query_utxo _)]
    cases hu : l.utxo outpoint with
    | none =>
      have hutxo : (l.cell outpoint).utxo = none := hu
      have hlock : (l.cell outpoint).lock = none := by
        by_contra hne
        have hsome := hmanaged (Option.isSome_iff_ne_none.mpr hne)
        obtain ⟨u, hu'⟩ := Option.isSome_iff_exists.mp hsome
        exact nomatch hutxo.symm.trans hu'
      refine ⟨db, rfl, h.unchanged (Cell.ext ?_ hlock.symm)⟩
      change (l.cell outpoint).utxo.map _ = (l.cell outpoint).utxo
      rw [hutxo]
      rfl
    | some u =>
      have hact : (l.cell outpoint).act (.markSpent outpoint txid) = ⟨some u.markSpent, none⟩ :=
        Cell.ext (congrArg (Option.map _) hu) rfl
      have hspent := h.markSpent hu (h.utxo_fits hu).2
      rw [← hact] at hspent
      exact hspent
  | reportConflict outpoint message recordedAt =>
    refine h.modifyUtxo outpoint (fun _ => rfl) fun _ hu => ⟨hu.1, fun _ hm => ?_⟩
    cases hm
    exact hfits
  | clearConflict outpoint =>
    exact h.modifyUtxo outpoint (fun _ => rfl) fun _ hu => ⟨hu.1, fun _ hm => nomatch hm⟩
  | updateAvailability outpoint availability =>
    exact h.modifyUtxo outpoint (fun _ => rfl) fun _ hu => hu
  | markMissing outpoint => exact h.modifyUtxo outpoint (fun _ => rfl) fun _ hu => hu

theorem applyReconciliation (h : Represents db l) {plan : ReconcilePlan}
    (hfits : ∀ a ∈ plan.actions, a.Fits) (hmanaged : ∀ o, (l.cell o).LockManaged) :
    ∃ db', applyReconciliation plan db = .ok ((), db') ∧
      Represents db' (l.applyReconciliation plan) := by
  obtain ⟨db₁, hrun, h₁⟩ := forM_updateAll applyActionTx ReconciliationAction.outpoint
    Cell.act Cell.LockManaged (fun c a hc => hc.act a)
    (fun a ha {_ _} h hc => h.applyAction (hfits a ha) hc) h
    fun a _ => hmanaged a.outpoint
  obtain ⟨db', htick, h'⟩ := h₁.tick_of_ok
  have hcells : Pointwise.updateAll ReconciliationAction.outpoint Cell.act plan.actions l.cell =
      fun o => (plan.actionsOn o).foldl Cell.act (l.cell o) :=
    funext fun o => Pointwise.updateAll_apply _ _ _ _ o
  rw [hcells] at h'
  exact ⟨db', (bind_of_ok hrun).trans htick, h'⟩
end Represents

end SqliteStateStore

end Txoscope
