import Txoscope.Core.Exclusive
import Txoscope.Sqlite.Sharing

/-!
# Inputs that are spent once

Clients that share a database, without the race of `persist_intent`: an input of an operation that
was not rolled back is held by it, or was seen spent, and no other such operation lists it
(`shared_exclusive`). Operations that are broadcast at any two times have no input in common, though
any of them may be released at any time (`shared_spends_once`).
-/

namespace Txoscope

open SqliteCodec

namespace SqliteStateStore

/-- The output is bound to the operation in its phase, and locked by it. -/
structure HeldFor (db : Database) (o : OutPoint) (op : PersistedOperation) : Prop where
  binding : ∃ u, db.getUtxo o = .ok (some u) ∧
    u.operationBinding = some ⟨op.operationId, op.phase⟩
  lock : ∃ k, db.getLock o = .ok (some k) ∧ k.operationId = op.operationId

/-- The output was spent, and nobody holds it. -/
structure SpentFree (db : Database) (o : OutPoint) : Prop where
  spent : ∃ u, db.getUtxo o = .ok (some u) ∧ u.onchainState = .spent ∧ u.operationBinding = none
  lock : db.getLock o = .ok none

variable {db : Database} {l : Ledger} {x y : Shared}

theorem SharedLedger.heldFor (h : SharedLedger db l) {o : OutPoint} {id : OperationId}
    {op : PersistedOperation} (hop : l.operation id = some op) (hheld : (l.cell o).Held id) :
    HeldFor db o op := by
  obtain ⟨phase, hbinding, k, hk, howner⟩ := hheld
  obtain ⟨op', hop', hphase⟩ := h.attributed.phase o _ hbinding
  rw [hop] at hop'
  cases hop'
  obtain rfl : op.operationId = id := h.represents.operation_keyed hop
  obtain ⟨u, hu, hb⟩ := Cell.binding_eq_some_iff.mp hbinding
  exact ⟨⟨u, (h.represents.utxo.read o).trans (congrArg Except.ok hu), by rw [hb, hphase]⟩, k,
    (h.represents.lock o).trans (congrArg Except.ok hk), howner⟩

theorem Represents.spentFree (h : Represents db l) {o : OutPoint}
    (hretired : Ledger.Retired (l.cell o)) : SpentFree db o := by
  obtain ⟨⟨u, hu, hs⟩, hfree⟩ := hretired
  constructor
  · refine ⟨u, (h.utxo.read o).trans (congrArg Except.ok hu), hs, ?_⟩
    cases hb : u.operationBinding with
    | none => rfl
    | some b =>
      have hbinding := Cell.binding_eq_some_iff.mpr ⟨u, hu, hb⟩
      exact (hfree b.operationId (.inr ⟨b, hbinding, rfl⟩)).elim
  · refine (h.lock o).trans (congrArg Except.ok ?_)
    cases hk : l.lock o with
    | none => rfl
    | some k => exact (hfree k.operationId (.inl ⟨k, hk, rfl⟩)).elim

theorem exclusive_of_run
    (h : Ledger.RacyRun (sharedRules anyPlan) Ledger.replacesPending Ledger.empty l) :
    l.Exclusive :=
  h.invariant (fun _ _ hl hm => hl.move (fun l u hu => (sharedRules_puts l u hu).1) hm) .empty

/-- Whatever clients share a database: an input of an operation that is on record and not rolled
back is held by it in its phase, or was spent, and no other such operation lists it. -/
theorem shared_exclusive (h : SharedRun WithoutRace (Database.empty, []) x) {id : OperationId}
    {op : PersistedOperation} {i : OperationIntent} {o : OutPoint}
    (hop : x.1.readOperation id = .ok (some op)) (hphase : op.phase ≠ .rollingBack)
    (hi : x.1.getIntent id = .ok (some i)) (ho : o ∈ i.selection.selectedOutpoints) :
    (HeldFor x.1 o op ∨ SpentFree x.1 o) ∧
      ∀ id' op' i', id' ≠ id → x.1.readOperation id' = .ok (some op') →
        op'.phase ≠ .rollingBack → x.1.getIntent id' = .ok (some i') →
          o ∉ i'.selection.selectedOutpoints := by
  obtain ⟨l, -, hl, -, hmoves, -⟩ := sharedLedger_of_run withoutRace_enforces h .refl
  have hop : l.operation id = some op :=
    Except.ok.inj ((hl.represents.operation.read id).symm.trans hop)
  have hi : l.intent id = some i := Except.ok.inj ((hl.represents.intent id).symm.trans hi)
  have halone := (exclusive_of_run hmoves).hasAlone ⟨op, hop, hphase⟩ hi ho
  refine ⟨halone.held.imp (hl.heldFor hop) hl.represents.spentFree,
    fun id' op' i' hne hop' hphase' hi' => ?_⟩
  have hop' : l.operation id' = some op' :=
    Except.ok.inj ((hl.represents.operation.read id').symm.trans hop')
  have hi' : l.intent id' = some i' := Except.ok.inj ((hl.represents.intent id').symm.trans hi')
  exact halone.excludes id' i' hne ⟨op', hop', hphase'⟩ hi'

theorem shared_exclusive_sample :
    ∃ op, HeldFor Sample.reserved ⟨"aa", 0⟩ op ∨ SpentFree Sample.reserved ⟨"aa", 0⟩ := by
  obtain ⟨op, hop, hphase⟩ := Sample.found (r := Sample.reserved.readOperation ⟨"send"⟩)
    (p := fun op => op.phase ≠ .rollingBack) (by decide +kernel)
  obtain ⟨i, hi, ho⟩ := Sample.found (r := Sample.reserved.getIntent ⟨"send"⟩)
    (p := fun i => (⟨"aa", 0⟩ : OutPoint) ∈ i.selection.selectedOutpoints) (by decide +kernel)
  exact ⟨op, (shared_exclusive Sample.reserved_run hop (of_decide_eq_true hphase) hi
    (of_decide_eq_true ho)).1⟩

/-- Whatever clients share a database: once an operation was broadcast, no other one that is on
record and not rolled back ever has an input in common with it. -/
theorem shared_spends_once (h : SharedRun WithoutRace (Database.empty, []) x)
    (h' : SharedRun WithoutRace x y) {id id' : OperationId} {op op' : PersistedOperation}
    {i i' : OperationIntent} (hop : x.1.readOperation id = .ok (some op))
    (hphase : op.phase = .broadcast ∨ op.phase = .awaitingConfirmation ∨
      op.phase = .awaitingL2Finality)
    (hi : x.1.getIntent id = .ok (some i)) (hne : id' ≠ id)
    (hop' : y.1.readOperation id' = .ok (some op')) (hphase' : op'.phase ≠ .rollingBack)
    (hi' : y.1.getIntent id' = .ok (some i')) :
    i.selection.selectedOutpoints.Disjoint i'.selection.selectedOutpoints := by
  obtain ⟨l, l', hl, hl', hmoves, hmoves'⟩ := sharedLedger_of_run withoutRace_enforces h h'
  have hop : l.operation id = some op :=
    Except.ok.inj ((hl.represents.operation.read id).symm.trans hop)
  have hi : l.intent id = some i := Except.ok.inj ((hl.represents.intent id).symm.trans hi)
  have hop' : l'.operation id' = some op' :=
    Except.ok.inj ((hl'.represents.operation.read id').symm.trans hop')
  have hi' : l'.intent id' = some i' := Except.ok.inj ((hl'.represents.intent id').symm.trans hi')
  have hstarts : op.phase.startsSpending = true := by
    rcases hphase with hp | hp | hp <;> rw [hp] <;> rfl
  exact hmoves'.disjoint_of_broadcast (fun l u hu => (sharedRules_puts l u hu).1)
    (exclusive_of_run hmoves) hl.attributed hl.spending hop hstarts hi hne ⟨op', hop', hphase'⟩ hi'

namespace Sample

/-- Another output is registered, and another operation reserves it. -/
def reservingAnother : List Orchestrator.Method :=
  [.addUtxo (ManagedUtxo.new ⟨"bb", 0⟩ accountId scopeId 1000),
    .applySelection ⟨⟨"other"⟩, [⟨"bb", 0⟩], scopeId, [⟨⟨"bb", 0⟩, .btcSend⟩], none⟩]

@[irreducible]
def reservedAnother : Database := afterMethods "owner" reservingAnother broadcast

theorem another_run : SharedRun WithoutRace (broadcast, []) (reservedAnother, []) := by
  unfold reservedAnother
  exact sharedRun_afterMethods (by decide +kernel)

end Sample

theorem shared_spends_once_sample :
    ∃ i i', Sample.broadcast.getIntent ⟨"send"⟩ = .ok (some i) ∧
      Sample.reservedAnother.getIntent ⟨"other"⟩ = .ok (some i') ∧
        i.selection.selectedOutpoints.Disjoint i'.selection.selectedOutpoints := by
  obtain ⟨op, hop, hphase⟩ := Sample.found (r := Sample.broadcast.readOperation ⟨"send"⟩)
    (p := fun op => op.phase = .broadcast) (by decide +kernel)
  obtain ⟨i, hi, -⟩ := Sample.found (r := Sample.broadcast.getIntent ⟨"send"⟩)
    (p := fun _ => true) (by decide +kernel)
  obtain ⟨op', hop', hphase'⟩ := Sample.found
    (r := Sample.reservedAnother.readOperation ⟨"other"⟩)
    (p := fun op => op.phase ≠ .rollingBack) (by decide +kernel)
  obtain ⟨i', hi', -⟩ := Sample.found (r := Sample.reservedAnother.getIntent ⟨"other"⟩)
    (p := fun _ => true) (by decide +kernel)
  have hsent : SharedRun WithoutRace (Database.empty, []) (Sample.broadcast, []) :=
    Sample.reserved_run.trans Sample.sending_run
  exact ⟨i, i', hi, hi', shared_spends_once hsent Sample.another_run hop
    (.inl (of_decide_eq_true hphase)) hi (by decide) hop' (of_decide_eq_true hphase') hi'⟩

end SqliteStateStore

end Txoscope
