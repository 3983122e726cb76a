import Txoscope.Sqlite.Accounts
import Txoscope.Sqlite.Refinement

/-!
# The two backends agree

Both backends refine the ledger, so an in-memory store and a database whose reads return the same
return the same to every call that is not a registration, and their reads return the same again.
The in-memory store has no limit on ticks but that of a `u64`; a database cannot record a tick above
`i64::MAX` (`tick_unrecorded`), and up to there the backends agree (`backends_agree`).
-/

namespace Txoscope

open SqliteStateStore

/-! ## The same reads -/

namespace StoreCall

/-- The same answer, with listings in any order. -/
def SameAnswer : (c : StoreCall) → c.Out → c.Out → Prop
  | listUtxos, a, b | listOperations, a, b | listPendingIntents, a, b => a.Perm b
  | releaseOperation _ _, a, b | completeOperation _ _, a, b => a.Perm b
  | releaseSelectedOperation _, some a, some b => a.Perm b
  | releaseSelectedOperation _, none, none => True
  | releaseSelectedOperation _, _, _ => False
  | getAccount _, a, b | getScope _, a, b | getUtxo _, a, b | getLock _, a, b
  | getOperation _, a, b | getIntent _, a, b | currentTick, a, b | persistIntent _, a, b
  | putAccount _, a, b | putScope _, a, b | putUtxo _, a, b | advanceTick _, a, b
  | markIntentCommitted _, a, b | markIntentFailed _, a, b | applyBatch _, a, b
  | applyReconciliation _, a, b => a = b

/-- The same error, or the same answer. -/
abbrev SameResult (c : StoreCall) : DomainResult c.Out → DomainResult c.Out → Prop :=
  ResultAgree c.SameAnswer

theorem Agree.same {c : StoreCall} {a b : c.Out} {S : c.SetOut} (ha : c.Agree a S)
    (hb : c.Agree b S) : c.SameAnswer a b := by
  have hperm : ∀ {α : Type} {l l' : List α} {S : Set α}, Enumerates l S → Enumerates l' S →
      l.Perm l' := fun h h' =>
    (List.perm_ext_iff_of_nodup h.1 h'.1).mpr fun a => (h.2 a).trans (h'.2 a).symm
  cases c with
  | listUtxos | listOperations | listPendingIntents => exact hperm ha hb
  | releaseOperation | completeOperation => exact hperm ha hb
  | releaseSelectedOperation id =>
    cases a <;> cases b <;> cases S <;> first | exact hperm ha hb | trivial
  | getAccount | getScope | getUtxo | getLock | getOperation | getIntent | currentTick
  | persistIntent | putAccount | putScope | putUtxo | advanceTick | markIntentCommitted
  | markIntentFailed | applyBatch | applyReconciliation => exact Eq.trans ha (Eq.symm hb)

theorem AgreeResult.same {c : StoreCall} {r r' : DomainResult c.Out} {q : DomainResult c.SetOut}
    (h : c.AgreeResult r q) (h' : c.AgreeResult r' q) : c.SameResult r r' := by
  cases r <;> cases r' <;> cases q <;> first
    | exact Agree.same h h'
    | exact Eq.trans h (Eq.symm h')
    | exact h.elim
    | exact h'.elim

end StoreCall

variable {s : InMemoryStateStore} {db : Database}

/-- Every read returns the same from both stores. -/
def SameReads (s : InMemoryStateStore) (db : Database) : Prop :=
  ∀ c : StoreCall, c.IsRead → c.SameResult (InMemoryStateStore.exec c s).1 (exec c db).1

/-- Both stores hold one ledger. -/
theorem sameReads_of_represents (hk : s.WellKeyed) (h : Represents db s.toLedger) :
    SameReads s db := by
  intro c hc
  obtain ⟨hmemory, -⟩ := InMemoryStateStore.exec_refines hk c
  exact hmemory.same (read_refines h hc)

namespace SameReads

theorem of_eq {α : Type} {a : α} {r : DomainResult α} (h : ResultAgree Eq (.ok a) r) :
    r = .ok a := by
  cases r with
  | error e => exact h.elim
  | ok b => exact congrArg Except.ok (Eq.symm h)

theorem of_perm {α : Type} {l : List α} {r : DomainResult (List α)}
    (h : ResultAgree List.Perm (.ok l) r) : ∃ l', r = .ok l' ∧ l.Perm l' := by
  cases r with
  | error e => exact h.elim
  | ok l' => exact ⟨l', rfl, h⟩

/-- What the reads return is what the database holds. -/
theorem represents (h : SameReads s db) : Represents db s.toLedger where
  account id := of_eq (h (.getAccount id) trivial)
  scope id := of_eq (h (.getScope id) trivial)
  utxo := {
    named := fun row hrow => by
      obtain ⟨utxos, hlist, -⟩ := of_perm (h .listUtxos trivial)
      have hdecoded := Table.mapM_eq_ok_iff.mp hlist
      obtain ⟨u, -, hu⟩ := Table.exists_of_forall₂_left hdecoded (Table.mem_select.mpr ⟨hrow, rfl⟩)
      exact ⟨u.outpoint, (UtxoRow.toUtxo_eq_ok_iff.mp hu).outpoint.symm⟩
    read := fun o => of_eq (h (.getUtxo o) trivial) }
  lock o := of_eq (h (.getLock o) trivial)
  operation := {
    named := fun row _ => ⟨⟨row.operationId⟩, rfl⟩
    read := fun id => of_eq (h (.getOperation id) trivial) }
  intent id := of_eq (h (.getIntent id) trivial)
  tick := of_eq (h .currentTick trivial)

/-- A store that returns what a database returns keeps its records under their own keys. -/
theorem wellKeyed (h : SameReads s db) : s.WellKeyed := by
  have hrep := h.represents
  refine ⟨fun k u hu => ?_, fun id a ha => ?_, fun id sc hsc => ?_, fun id op hop => ?_,
    fun id i hi => ?_⟩
  · obtain ⟨utxos, hlist, hperm⟩ := of_perm (h .listUtxos trivial)
    obtain ⟨utxos', hlist', hnodup, hmem⟩ := hrep.listUtxos
    obtain rfl : utxos = utxos' := Except.ok.inj (hlist.symm.trans hlist')
    obtain ⟨o, ho⟩ := (hmem u).mp (hperm.subset (Dict.mem_values.mpr ⟨k, hu⟩))
    rw [(hrep.utxo_fits ho).1]
    exact Dict.key_eq_of_nodup_values (hperm.symm.nodup hnodup) ho hu
  · exact readAccount_id ((hrep.account id).trans (congrArg Except.ok ha))
  · exact readScope_id ((hrep.scope id).trans (congrArg Except.ok hsc))
  · exact hrep.operation_keyed hop
  · exact hrep.intent_keyed hi

end SameReads

/-! ## Calls one after the other -/

/-- Each call returns the same from both stores, and the reads return the same after it. -/
def AgreeOn : List StoreCall → InMemoryStateStore → Database → Prop
  | [], s, db => SameReads s db
  | c :: calls, s, db => SameReads s db ∧
      c.SameResult (InMemoryStateStore.exec c s).1 (exec c db).1 ∧
        AgreeOn calls (InMemoryStateStore.exec c s).2 (exec c db).2

/-- Every call that writes the tick to a record is made while the next tick fits its column. -/
def TicksFit : List StoreCall → InMemoryStateStore → Prop
  | [], _ => True
  | c :: calls, s =>
    (c.RecordsTick → s.tick < i64Max) ∧ TicksFit calls (InMemoryStateStore.exec c s).2

instance : ∀ (calls : List StoreCall) (s : InMemoryStateStore), Decidable (TicksFit calls s)
  | [], _ => .isTrue trivial
  | c :: calls, s =>
    @instDecidableAnd _ _ _ (instDecidableTicksFit calls (InMemoryStateStore.exec c s).2)

/-- No call leaves a lock on an output that is not managed. -/
theorem lockManaged_exec {l : Ledger} (h : ∀ o, (l.cell o).LockManaged) (c : StoreCall) :
    ∀ o, ((Ledger.exec c l).2.cell o).LockManaged := by
  cases c with
  | getAccount | getScope | getUtxo | getLock | getOperation | getIntent | currentTick
  | listUtxos | listOperations | listPendingIntents | putAccount | advanceTick => exact h
  | putScope scope =>
    change ∀ o, ((l.putScope scope).2.cell o).LockManaged
    unfold Ledger.putScope
    cases l.account scope.accountId <;> exact h
  | putUtxo utxo =>
    intro o
    change (Function.update l.cell utxo.outpoint _ o).LockManaged
    rw [Function.update_apply]
    split_ifs
    · exact fun _ => rfl
    · exact h o
  | persistIntent selection =>
    change ∀ o, ((l.persistIntent selection).2.cell o).LockManaged
    unfold Ledger.persistIntent
    cases l.intent selection.operationId with
    | none => exact h
    | some existing =>
      dsimp only
      split_ifs <;> exact h
  | markIntentCommitted id =>
    change ∀ o, ((l.markIntentCommitted id).2.cell o).LockManaged
    unfold Ledger.markIntentCommitted
    cases l.intent id with
    | none => exact h
    | some i =>
      dsimp only
      split_ifs <;> exact h
  | markIntentFailed id =>
    change ∀ o, ((l.markIntentFailed id).2.cell o).LockManaged
    unfold Ledger.markIntentFailed
    cases l.intent id with
    | none => exact h
    | some i =>
      dsimp only
      cases i.status with
      | committed | failed => exact h
      | pending =>
        cases l.operation id with
        | none => exact h
        | some op =>
          dsimp only
          cases op.phase <;> first | exact fun o => (h o).release id | exact h
  | applyBatch batch =>
    change ∀ o, ((l.applyBatch batch).2.cell o).LockManaged
    unfold Ledger.applyBatch
    cases l.validateBatch batch with
    | error e => exact h
    | ok u =>
      intro o
      change (l.holdCells batch o).LockManaged
      unfold Ledger.holdCells
      rcases Pointwise.updateEach_cases (·.outpoint)
        (fun effect c => c.hold batch l.tick effect.purpose) batch.selection.effects l.cell o with
        ⟨effect, -, -, heq⟩ | ⟨-, heq⟩
      · rw [heq]
        exact (h o).hold batch l.tick effect.purpose
      · rw [heq]
        exact h o
  | applyReconciliation plan => exact fun o => (h o).foldl_act (plan.actionsOn o)
  | releaseSelectedOperation id =>
    change ∀ o, ((l.releaseSelectedOperation id).2.cell o).LockManaged
    unfold Ledger.releaseSelectedOperation
    split_ifs
    · exact h
    · exact fun o => (h o).release id
  | releaseOperation id phase => exact fun o => (h o).release id
  | completeOperation id phase =>
    change ∀ o, ((l.completeOperation id phase).2.cell o).LockManaged
    unfold Ledger.completeOperation
    cases l.operation id with
    | none => exact h
    | some op =>
      cases l.intent id with
      | none => exact h
      | some i =>
        dsimp only
        split_ifs
        · exact h
        · cases op.validateAdvance phase with
          | error e => exact h
          | ok advances =>
            cases advances with
            | false => exact h
            | true => exact fun o => (h o).advance id phase

/-- Two backends whose reads return the same, with every locked output managed, agree on every
sequence of calls that are no registrations and whose numbers fit the integer columns, the ticks
they record included. -/
theorem backends_agree (hsame : SameReads s db)
    (hmanaged : ∀ o k, s.getLock o = some k → ∃ u, s.getUtxo o = some u) {calls : List StoreCall}
    (hcalls : ∀ c ∈ calls, ¬c.IsTopology ∧ c.Fits) (hticks : TicksFit calls s) :
    AgreeOn calls s db := by
  have hlocks : ∀ o, (s.toLedger.cell o).LockManaged := by
    intro o hlock
    obtain ⟨k, hk⟩ := Option.isSome_iff_exists.mp hlock
    exact Option.isSome_iff_exists.mpr (hmanaged o k hk)
  have hagree : ∀ {calls : List StoreCall} {s : InMemoryStateStore} {db : Database}, s.WellKeyed →
      Represents db s.toLedger → (∀ o, (s.toLedger.cell o).LockManaged) →
        (∀ c ∈ calls, ¬c.IsTopology ∧ c.Fits) → TicksFit calls s → AgreeOn calls s db := by
    intro calls
    induction calls with
    | nil => exact fun hk hrep _ _ _ => sameReads_of_represents hk hrep
    | cons c calls ih =>
      intro s db hk hrep hlocks hcalls hticks
      obtain ⟨htopology, hfits⟩ := hcalls c List.mem_cons_self
      obtain ⟨hmemory, hledger⟩ := InMemoryStateStore.exec_refines hk c
      obtain ⟨hsqlite, hrep'⟩ := exec_refines hrep hlocks htopology hfits hticks.1
      refine ⟨sameReads_of_represents hk hrep, hmemory.same hsqlite,
        ih (hk.exec c) ?_ ?_ ?_ hticks.2⟩
      · rw [hledger]
        exact hrep'
      · rw [hledger]
        exact lockManaged_exec hlocks c
      · exact fun c' hc' => hcalls c' (List.mem_cons_of_mem _ hc')
  exact hagree hsame.wellKeyed hsame.represents hlocks hcalls hticks

namespace Sample

/-- An output is registered and selected, and the intent fails. -/
def failing : List StoreCall :=
  [.putUtxo (ManagedUtxo.new ⟨"aa", 0⟩ ⟨"account"⟩ ⟨"scope"⟩ 1000), .advanceTick 5,
    .persistIntent (SqliteStateStore.Sample.sending "aa"), .markIntentFailed ⟨"send"⟩]

end Sample

theorem sameReads_empty : SameReads InMemoryStateStore.empty Database.empty :=
  sameReads_of_represents .empty represents_empty

theorem backends_agree_sample :
    AgreeOn Sample.failing InMemoryStateStore.empty Database.empty :=
  backends_agree sameReads_empty (fun _ _ hk => nomatch hk) (by decide) (by decide)

/-- After an advance to the last tick that fits its column no intent can be recorded in the
database. -/
theorem tick_unrecorded : ¬ ∀ (s : InMemoryStateStore) (db : Database) (calls : List StoreCall),
    SameReads s db → (∀ o k, s.getLock o = some k → ∃ u, s.getUtxo o = some u) →
      (∀ c ∈ calls, ¬c.IsTopology ∧ c.Fits) → AgreeOn calls s db := by
  intro h
  have hagree := h InMemoryStateStore.empty Database.empty
    [.advanceTick i64Max, .persistIntent (SqliteStateStore.Sample.sending "aa")] sameReads_empty
    (fun _ _ hk => nomatch hk) (by decide)
  obtain ⟨-, -, -, hresult, -⟩ := hagree
  have hadvanced := (represents_empty.advanceTick i64Max).2
  have herror := hadvanced.persistIntent_of_le (by decide)
    (SqliteStateStore.Sample.sending "aa") rfl
  rw [herror] at hresult
  exact hresult

end Txoscope
