import Txoscope.Memory.Commit
import Txoscope.Memory.Safety

/-!
# Crash recovery

`recover_pending_intents` resolves every pending intent, however the store was left by methods cut
off between two calls. A pass commits or rejects each intent in turn and defers the ones that are
blocked by a lock of another pending operation. A pass in which all of them are deferred is
impossible: such a lock belongs to an operation still in `Selected`, which holds every input of
its own selection that is not spent, so that nothing can block it (`no_standoff`).
-/

namespace Txoscope

namespace InMemoryStateStore

variable {s s' : InMemoryStateStore} {owner : String}

/-! ## Methods cut off -/

/-- A method of an orchestrator runs to its end or is cut off between two of its calls, a plan is
applied, or the tables are iterated over in another order. -/
inductive CutStep : InMemoryStateStore → InMemoryStateStore → Prop where
  | method {s s' : InMemoryStateStore} (owner : String) (m : Orchestrator.Method)
      (puts : ∀ u, m = .addUtxo u → s.toLedger.putsNew u)
      (cut : Program.Cut exec (m.program owner) s s') : CutStep s s'
  | plan {s : InMemoryStateStore} (plan : ReconcilePlan) : CutStep s (s.applyReconciliation plan)
  | reorder {s s' : InMemoryStateStore} (h : s.SameContents s') : CutStep s s'

abbrev CutRun : InMemoryStateStore → InMemoryStateStore → Prop := Relation.ReflTransGen CutStep

theorem CutStep.run (h : CutStep s s') (hk : s.WellKeyed) : Run freeRules s s' := by
  cases h with
  | plan plan => exact .single (.call (StoreCall.applyReconciliation plan) trivial)
  | reorder h => exact .single (.env h)
  | method owner m puts cut =>
    by_cases hm : ∃ u, m = .addUtxo u
    · obtain ⟨u, rfl⟩ := hm
      have hmeets : (Orchestrator.Method.program owner (.addUtxo u)).Meets exec (· = ·)
          (fun s c => s.toLedger.Admissible freeRules c) (fun _ _ => True) s := by
        rintro s' rfl
        exact ⟨puts u rfl, trivial⟩
      exact hmeets.steps_of_cut (fun _ => rfl) cut
    · exact (keeps_method (fun _ _ => trivial) owner m (fun u hu => (hm ⟨u, hu⟩).elim) s
        ⟨hk, fun _ hmem => (List.not_mem_nil hmem).elim⟩).steps_of_cut Interferes.refl cut

/-- Methods cut off anywhere make a run. -/
theorem CutRun.run (h : CutRun empty s) : Run freeRules empty s := by
  induction h with
  | refl => exact .refl
  | tail _ hstep ih => exact ih.trans (hstep.run (Run.wellKeyed ih))

theorem cutRun_afterMethods (owner : String) (ms : List Orchestrator.Method)
    (hputs : ∀ u, Orchestrator.Method.addUtxo u ∉ ms) (s : InMemoryStateStore) :
    CutRun s (afterMethods owner ms s) := by
  induction ms generalizing s with
  | nil => exact .refl
  | cons m ms ih =>
    refine .head (.method owner m (fun u hu => ?_) (Program.cut_run exec _ s)) (ih (fun u hu => ?_) _)
    · exact (hputs u (hu ▸ List.mem_cons_self)).elim
    · exact hputs u (List.mem_cons_of_mem _ hu)

/-! ## Settling one intent -/

/-- A recovered reservation: committed, in `Selected`, and holding every input. -/
structure Replayed (s : InMemoryStateStore) (id : OperationId) : Prop where
  intent : ∃ i, s.getIntent id = some i ∧ i.status = .committed ∧
    ∀ o ∈ i.selection.selectedOutpoints, (s.cell o).HeldBy id .selected
  operation : ∃ op, s.getOperation id = some op ∧ op.phase = .selected

/-- A rejected reservation. -/
def Rejected (s : InMemoryStateStore) (id : OperationId) : Prop :=
  ∃ i, s.getIntent id = some i ∧ i.status = .failed

/-- The intent `i` is given `status`, and nothing any other operation holds is touched. -/
structure Settles (s s' : InMemoryStateStore) (i : OperationIntent) (status : IntentStatus) :
    Prop where
  run : Run freeRules s s'
  intent : s'.getIntent =
    Function.update s.getIntent i.selection.operationId (some { i with status })
  operation : ∀ id, id ≠ i.selection.operationId → s'.getOperation id = s.getOperation id
  held : ∀ o id, id ≠ i.selection.operationId → (s.cell o).HeldBy id .selected →
    (s'.cell o).HeldBy id .selected

section Settles

variable {i : OperationIntent} {status : IntentStatus} {id : OperationId}

theorem Settles.intent_of_ne (h : s.Settles s' i status) (hne : id ≠ i.selection.operationId) :
    s'.getIntent id = s.getIntent id := by
  rw [h.intent, Function.update_of_ne hne]

/-- Settling a pending intent does not undo a recovered reservation. -/
theorem Settles.replayed (h : s.Settles s' i status)
    (hi : s.getIntent i.selection.operationId = some i) (hp : i.status = .pending)
    (hid : s.Replayed id) : s'.Replayed id := by
  obtain ⟨j, hj, hstatus, hheld⟩ := hid.intent
  have hne : id ≠ i.selection.operationId := by
    rintro rfl
    rw [hi] at hj
    cases hj
    rw [hp] at hstatus
    cases hstatus
  refine ⟨⟨j, h.intent_of_ne hne ▸ hj, hstatus, fun o ho => h.held o id hne (hheld o ho)⟩, ?_⟩
  rw [h.operation id hne]
  exact hid.operation

theorem Settles.rejected (h : s.Settles s' i status)
    (hi : s.getIntent i.selection.operationId = some i) (hp : i.status = .pending)
    (hid : s.Rejected id) : s'.Rejected id := by
  obtain ⟨j, hj, hstatus⟩ := hid
  have hne : id ≠ i.selection.operationId := by
    rintro rfl
    rw [hi] at hj
    cases hj
    rw [hp] at hstatus
    cases hstatus
  exact ⟨j, h.intent_of_ne hne ▸ hj, hstatus⟩

/-- One admissible call is a run. -/
theorem run_call {rules : Ledger.Rules} {c : StoreCall} {r : DomainResult c.Out}
    (hc : s.toLedger.Admissible rules c) (h : exec c s = (r, s')) : Run rules s s' := by
  have hstep : Program.Step exec (fun s c => s.toLedger.Admissible rules c) SameContents s
      (exec c s).2 := .call c hc
  rw [h] at hstep
  exact .single hstep

/-- A pending intent can be failed unless its operation has advanced. -/
theorem exec_markIntentFailed (hi : s.getIntent id = some i) (hp : i.status = .pending)
    (hop : ∀ op, s.getOperation id = some op → op.phase = .selected ∨ op.phase = .rollingBack) :
    ∃ s', exec (.markIntentFailed id) s = (.ok (), s') ∧
      (s'.toLedger = s.toLedger.setStatus id i .failed ∨
        s'.toLedger = (s.toLedger.releaseOperation id .rollingBack).setStatus id i .failed) := by
  obtain ⟨hresult, hledger⟩ := toLedger_markIntentFailed s id
  have hintent : s.toLedger.intent id = some i := hi
  have hoperation : s.toLedger.operation id = s.getOperation id := rfl
  unfold Ledger.markIntentFailed at hresult hledger
  rw [hintent, hoperation] at hresult hledger
  simp only [hp] at hresult hledger
  cases ho : s.getOperation id with
  | none =>
    rw [ho] at hresult hledger
    exact ⟨_, Prod.ext hresult rfl, .inl hledger⟩
  | some op =>
    rw [ho] at hresult hledger
    rcases hop op ho with hphase | hphase
    · simp only [hphase] at hresult hledger
      exact ⟨_, Prod.ext hresult rfl, .inr hledger⟩
    · simp only [hphase] at hresult hledger
      exact ⟨_, Prod.ext hresult rfl, .inl hledger⟩

/-- A pending intent whose batch is applied is committed next. -/
theorem settles_commit (hi : s.getIntent i.selection.operationId = some i)
    (hp : i.status = .pending)
    (h : Program.run exec (Orchestrator.commitSelection owner i.selection) s = (.ok (), s')) :
    ∃ s'', exec (.markIntentCommitted i.selection.operationId) s' = (.ok (), s'') ∧
      s.Settles s'' i .committed ∧ s''.Replayed i.selection.operationId := by
  obtain ⟨hadmits, hs'⟩ := commitSelection_ok h
  obtain ⟨hresult, hledger⟩ := toLedger_applyBatch_of_admits hadmits
  rw [← hs'] at hledger
  have hintent : s'.getIntent = s.getIntent := congrArg Ledger.intent hledger
  obtain ⟨s'', hmark, hmarked⟩ := exec_markIntentCommitted (s := s')
    (hintent ▸ hi : s'.getIntent i.selection.operationId = some i) hp
  have hcell : s''.cell = s.toLedger.holdCells ⟨i.selection, .selected, owner⟩ :=
    (congrArg Ledger.cell hmarked).trans (congrArg Ledger.cell hledger)
  have hoperation : s''.getOperation = Function.update s.getOperation i.selection.operationId _ :=
    (congrArg Ledger.operation hmarked).trans (congrArg Ledger.operation hledger)
  have hintent' : s''.getIntent = Function.update s.getIntent i.selection.operationId
      (some { i with status := .committed }) := by
    rw [← hintent]
    exact congrArg Ledger.intent hmarked
  refine ⟨s'', hmark, ⟨?_, hintent', ?_, ?_⟩,
    ⟨⟨{ i with status := .committed }, ?_, rfl, ?_⟩, ?_⟩⟩
  · have hbatch : exec (.applyBatch ⟨i.selection, .selected, owner⟩) s = (.ok (), s') :=
      Prod.ext hresult hs'.symm
    exact (run_call (c := .applyBatch ⟨i.selection, .selected, owner⟩)
      ⟨rfl, Option.isSome_iff_exists.mpr ⟨i, hi⟩⟩ hbatch).trans
        (run_call (c := .markIntentCommitted i.selection.operationId) trivial hmark)
  · intro id hne
    rw [hoperation, Function.update_of_ne hne]
  · intro o id hne hheld
    change (s.toLedger.cell o).HeldBy id .selected at hheld
    rw [hcell]
    rcases s.toLedger.holdCells_cases ⟨i.selection, .selected, owner⟩ o with
      ⟨e, he, rfl, heq⟩ | ⟨-, heq⟩
    · rw [heq, Cell.HeldBy.hold_eq hheld (hadmits.holdable e he)]
      exact hheld
    · rw [heq]
      exact hheld
  · rw [hintent', Function.update_self]
  · intro o ho
    rw [show s''.cell o = s'.cell o from congrFun (congrArg Ledger.cell hmarked) o, hs']
    exact heldBy_applyBatch hadmits ho
  · exact ⟨_, by rw [hoperation, Function.update_self], rfl⟩

/-- A pending intent whose operation has not advanced is failed. -/
theorem settles_fail (hi : s.getIntent i.selection.operationId = some i)
    (hp : i.status = .pending) (hop : ∀ op, s.getOperation i.selection.operationId = some op →
      op.phase = .selected ∨ op.phase = .rollingBack) :
    ∃ s', exec (.markIntentFailed i.selection.operationId) s = (.ok (), s') ∧
      s.Settles s' i .failed ∧ s'.Rejected i.selection.operationId := by
  obtain ⟨s', hmark, hledger⟩ := exec_markIntentFailed hi hp hop
  have hrun : Run freeRules s s' :=
    run_call (c := .markIntentFailed i.selection.operationId) trivial hmark
  have hintent : s'.getIntent = Function.update s.getIntent i.selection.operationId
      (some { i with status := .failed }) := by
    rcases hledger with h | h <;> exact congrArg Ledger.intent h
  refine ⟨s', hmark, ⟨hrun, hintent, ?_, ?_⟩, _, by rw [hintent, Function.update_self], rfl⟩
  · intro id hne
    rcases hledger with h | h
    · exact congrFun (congrArg Ledger.operation h) id
    · refine (congrFun (congrArg Ledger.operation h) id).trans ?_
      exact Function.update_of_ne hne _ _
  · intro o id hne hheld
    rcases hledger with h | h
    · rw [show s'.cell o = s.cell o from congrFun (congrArg Ledger.cell h) o]
      exact hheld
    · rw [show s'.cell o = (s.cell o).release _ from congrFun (congrArg Ledger.cell h) o]
      exact hheld.release hne

end Settles

/-! ## Contention -/

/-- An intent put off because an input it does not hold is locked by another pending operation. -/
structure Blocked (s : InMemoryStateStore) (i : OperationIntent) : Prop where
  lock : ∃ o k j, o ∈ i.selection.effectOutpoints ∧
    ¬ (s.cell o).HeldBy i.selection.operationId .selected ∧ s.getLock o = some k ∧
      s.getIntent k.operationId = some j ∧ j.status = .pending

theorem Blocked.of_conflict {i : OperationIntent} {e : DomainError}
    (he : s.toLedger.Refuses i.selection e)
    (h : s.pendingLockConflict i.selection.operationId e = true) : s.Blocked i := by
  unfold pendingLockConflict at h
  cases hc : Orchestrator.contendedOutpoint e with
  | none =>
    rw [hc] at h
    cases h
  | some o =>
    rw [hc] at h
    obtain ⟨k, hk, hlock⟩ := (Option.any_eq_true _ _).mp h
    rw [Bool.and_eq_true] at hlock
    obtain ⟨hmem, hheld⟩ := he.contended o hc
    cases hj : s.getIntent k.operationId with
    | none =>
      rw [hj] at hlock
      exact absurd hlock.2 (by decide)
    | some j =>
      simp only [hj, Option.any_some, decide_eq_true_eq] at hlock
      exact ⟨o, k, j, hmem, hheld, hk, hj, hlock.2⟩

/-- Not every pending intent is blocked. -/
theorem no_standoff (h : Run freeRules empty s) {i : OperationIntent}
    (hi : s.getIntent i.selection.operationId = some i) (hp : i.status = .pending)
    (hall : ∀ id j, s.getIntent id = some j → j.status = .pending → s.Blocked j) : False := by
  have hputs : ∀ l u, freeRules.puts l u → l.utxo u.outpoint = none :=
    fun l u hu => (newRules_puts l u hu).1
  have howned := h.owned
  have hreserved : s.toLedger.Reserved := h.invariant .empty fun _ _ hl hm => hl.move hputs hm
  have hadvanced : s.toLedger.AdvancedCommitted := h.invariant .empty fun _ _ hl hm => hl.move hm
  obtain ⟨o, k, j, -, -, hk, hj, hjp⟩ := (hall _ i hi hp).lock
  -- the operation of the lock is still in `Selected`, since its intent is pending
  obtain ⟨u, b, hu, hb, hkb, -⟩ := (howned.agrees o).locked k hk
  obtain ⟨⟨op, hop, hphase⟩, hrolling, -⟩ :=
    howned.backs o b (Cell.binding_eq_some_iff.mpr ⟨u, hu, hb⟩)
  have hselected : op.phase = .selected := by
    by_contra hne
    obtain ⟨j', hj', hst⟩ := hadvanced _ op hop hne (hphase ▸ hrolling)
    rw [← hkb, show s.toLedger.intent k.operationId = some j from hj] at hj'
    cases hj'
    rw [hjp] at hst
    cases hst
  -- so it holds every input that is not spent, and cannot be blocked itself
  obtain ⟨j', hj', hw, hheld⟩ := (hreserved _ op hop hselected).intent
  rw [← hkb, show s.toLedger.intent k.operationId = some j from hj] at hj'
  cases hj'
  obtain ⟨o', k', j', hmem, hnot, hk', -⟩ := (hall _ j hj hjp).lock
  have hid : j.selection.operationId = k.operationId := h.wellKeyed.intent _ j hj
  rcases hheld o' ((hw.mem_iff o').mpr hmem) with hheld | hretired
  · rw [← hkb, ← hid] at hheld
    exact hnot hheld
  · exact hretired.2 _ (.inl ⟨k', hk', rfl⟩)

/-- The operation of a pending intent has not advanced. -/
theorem phase_of_pending (h : Run freeRules empty s) {id : OperationId} {i : OperationIntent}
    (hi : s.getIntent id = some i) (hp : i.status = .pending) {op : PersistedOperation}
    (hop : s.getOperation id = some op) : op.phase = .selected ∨ op.phase = .rollingBack := by
  have hadvanced : s.toLedger.AdvancedCommitted := h.invariant .empty fun _ _ hl hm => hl.move hm
  by_contra hphase
  rw [not_or] at hphase
  obtain ⟨i', hi', hst⟩ := hadvanced id op hop hphase.1 hphase.2
  rw [show s.toLedger.intent id = some i from hi] at hi'
  cases hi'
  rw [hp] at hst
  cases hst

/-! ## One pass -/

/-- Recovery settles one pending intent: its batch is applied and it is marked as committed, or it
is refused for another reason than contention and marked as failed. -/
inductive RecoveryStep (owner : String) :
    InMemoryStateStore × RecoveryReport → InMemoryStateStore × RecoveryReport → Prop where
  | replay {s s₁ s' : InMemoryStateStore} {i : OperationIntent} (report : RecoveryReport)
      (recorded : s.getIntent i.selection.operationId = some i) (pending : i.status = .pending)
      (commit : Program.run exec (Orchestrator.commitSelection owner i.selection) s = (.ok (), s₁))
      (mark : exec (.markIntentCommitted i.selection.operationId) s₁ = (.ok (), s')) :
      RecoveryStep owner (s, report) (s', { report with
        replayedOperations := report.replayedOperations ++ [i.selection.operationId] })
  | reject {s s' : InMemoryStateStore} {i : OperationIntent} {e : DomainError}
      (report : RecoveryReport) (recorded : s.getIntent i.selection.operationId = some i)
      (pending : i.status = .pending)
      (refused : Program.run exec (Orchestrator.commitSelection owner i.selection) s = (.error e, s))
      (conflict : s.pendingLockConflict i.selection.operationId e = false)
      (mark : exec (.markIntentFailed i.selection.operationId) s = (.ok (), s')) :
      RecoveryStep owner (s, report) (s', { report with
        failedOperations := report.failedOperations ++ [i.selection.operationId] })

/-- What recovery has done so far. -/
abbrev RecoverySteps (owner : String) :
    InMemoryStateStore × RecoveryReport → InMemoryStateStore × RecoveryReport → Prop :=
  Relation.ReflTransGen (RecoveryStep owner)

/-- The operations of intents. -/
def operationIds (pending : List OperationIntent) : List OperationId :=
  pending.map (·.selection.operationId)

/-- Every intent of `pending` is on record under its own operation and pending. -/
def Listed (s : InMemoryStateStore) (pending : List OperationIntent) : Prop :=
  ∀ i ∈ pending, s.getIntent i.selection.operationId = some i ∧ i.status = .pending

/-- The operations a report and the intents that are left account for. -/
def accounted (report : RecoveryReport) (pending : List OperationIntent) : List OperationId :=
  report.replayedOperations ++ report.failedOperations ++ operationIds pending

/-- What the report says holds in the store. -/
structure Reported (s : InMemoryStateStore) (report : RecoveryReport) : Prop where
  replayed : ∀ id ∈ report.replayedOperations, s.Replayed id
  failed : ∀ id ∈ report.failedOperations, s.Rejected id

/-- What a pass over `pending` that starts with `report` in `s` guarantees. -/
structure Passed (s : InMemoryStateStore) (pending : List OperationIntent)
    (report : RecoveryReport) (s' : InMemoryStateStore)
    (pass : Orchestrator.RecoveryPass pending) : Prop where
  run : Run freeRules s s'
  accounted : (accounted pass.report pass.deferred).Perm (accounted report pending)
  reported : s.Reported report → s'.Reported pass.report
  untouched : ∀ id, id ∉ operationIds pending → s'.getIntent id = s.getIntent id
  listed : s'.Listed pass.deferred
  remaining : ∀ id i, s'.getIntent id = some i → i.status = .pending →
    s.getIntent id = some i ∧ (i ∈ pending → i ∈ pass.deferred)
  stuck : pass.progressed = false → s' = s ∧ pass.deferred = pending ∧ ∀ i ∈ pending, s.Blocked i

section Pass

variable {pending : List OperationIntent} {report report' : RecoveryReport} {i : OperationIntent}

theorem Listed.settles {status : IntentStatus} (h : s.Listed (i :: pending))
    (hnd : (operationIds (i :: pending)).Nodup) (hs : s.Settles s' i status) :
    s'.Listed pending := by
  intro j hj
  obtain ⟨hget, hp⟩ := h j (List.mem_cons_of_mem _ hj)
  refine ⟨(hs.intent_of_ne fun heq => ?_).trans hget, hp⟩
  exact (List.nodup_cons.mp hnd).1 (List.mem_map.mpr ⟨j, hj, heq⟩)

/-- A pass that settles its first intent. -/
theorem Passed.resolved {s'' : InMemoryStateStore} {status : IntentStatus}
    {pass : Orchestrator.RecoveryPass pending} (hk : s.WellKeyed)
    (hstatus : status ≠ .pending) (hs : s.Settles s' i status)
    (haccounted : (InMemoryStateStore.accounted report' pending).Perm
      (InMemoryStateStore.accounted report (i :: pending)))
    (hreported : s.Reported report → s'.Reported report')
    (h : Passed s' pending report' s'' pass) :
    Passed s (i :: pending) report s'' (pass.resolved i) where
  run := hs.run.trans h.run
  accounted := h.accounted.trans haccounted
  reported hr := h.reported (hreported hr)
  untouched id hid := by
    obtain ⟨hne, hid⟩ := not_or.mp (List.mem_cons.not.mp hid)
    exact (h.untouched id hid).trans (hs.intent_of_ne hne)
  listed := h.listed
  remaining id j hj hp := by
    obtain ⟨hj', hdeferred⟩ := h.remaining id j hj hp
    rw [hs.intent, Function.update_apply] at hj'
    split_ifs at hj' with hid
    · cases hj'
      exact (hstatus hp).elim
    · refine ⟨hj', fun hmem => ?_⟩
      rcases List.mem_cons.mp hmem with rfl | hmem
      · exact (hid (hk.intent id j hj').symm).elim
      · exact hdeferred hmem
  stuck hp := nomatch hp

/-- A pass that puts its first intent off. -/
theorem Passed.defer {pass : Orchestrator.RecoveryPass pending} (hlisted : s.Listed (i :: pending))
    (hnd : (operationIds (i :: pending)).Nodup) (hblocked : s.Blocked i)
    (h : Passed s pending report s' pass) :
    Passed s (i :: pending) report s' (pass.defer i) where
  run := h.run
  accounted := by
    have hperm := (h.accounted.cons i.selection.operationId)
    refine .trans ?_ (hperm.trans ?_)
    · exact List.perm_middle
    · exact List.perm_middle.symm
  reported := h.reported
  untouched id hid := h.untouched id (not_or.mp (List.mem_cons.not.mp hid)).2
  listed j hj := by
    rcases List.mem_cons.mp hj with rfl | hj
    · obtain ⟨hget, hp⟩ := hlisted j List.mem_cons_self
      exact ⟨(h.untouched _ (List.nodup_cons.mp hnd).1).trans hget, hp⟩
    · exact h.listed j hj
  remaining id j hj hp := by
    obtain ⟨hj', hdeferred⟩ := h.remaining id j hj hp
    refine ⟨hj', fun hmem => ?_⟩
    rcases List.mem_cons.mp hmem with rfl | hmem
    · exact List.mem_cons_self
    · exact List.mem_cons_of_mem _ (hdeferred hmem)
  stuck hp := by
    obtain ⟨hs, hdeferred, hall⟩ := h.stuck hp
    exact ⟨hs, congrArg (i :: ·) hdeferred, List.forall_mem_cons.mpr ⟨hblocked, hall⟩⟩

variable (owner) in
/-- A pass over pending intents comes to its end. -/
theorem recoverPass_passed (h : Run freeRules empty s) (hlisted : s.Listed pending)
    (hnd : (operationIds pending).Nodup) (report : RecoveryReport) :
    ∃ pass s', Program.run exec (Orchestrator.recoverPass owner pending report) s =
      (.ok pass, s') ∧ Passed s pending report s' pass ∧
        RecoverySteps owner (s, report) (s', pass.report) := by
  induction pending generalizing s report with
  | nil =>
    refine ⟨_, s, rfl, ⟨.refl, .refl _, fun hr => hr, fun _ _ => rfl, hlisted, ?_, ?_⟩, .refl⟩
    · exact fun _ _ hj _ => ⟨hj, fun hmem => hmem⟩
    · exact fun _ => ⟨rfl, rfl, fun _ hmem => (List.not_mem_nil hmem).elim⟩
  | cons i pending ih =>
    obtain ⟨hi, hp⟩ := hlisted i List.mem_cons_self
    have hnd' := (List.nodup_cons.mp hnd).2
    have hattempt := Program.run_attempt exec
      (Orchestrator.commitSelection owner i.selection) s
    unfold Orchestrator.recoverPass
    dsimp only
    obtain ⟨⟨result, s₁⟩, hc⟩ : ∃ x, Program.run exec
        (Orchestrator.commitSelection owner i.selection) s = x := ⟨_, rfl⟩
    rw [hc] at hattempt
    rw [Program.run_bind_ok _ hattempt]
    cases result with
    | ok u =>
      obtain ⟨s₂, hmark, hsettles, hreplayed⟩ := settles_commit hi hp hc
      have hcommit : Program.run exec
          (StoreCall.markIntentCommitted i.selection.operationId).invoke s₁ = (.ok (), s₂) := hmark
      obtain ⟨pass, s', hrun, hpassed, hsteps⟩ := ih (h.trans hsettles.run)
        (hlisted.settles hnd hsettles) hnd'
        { report with
          replayedOperations := report.replayedOperations ++ [i.selection.operationId] }
      refine ⟨pass.resolved i, s', ?_, .resolved h.wellKeyed (by decide) hsettles ?_ ?_ hpassed,
        .head (.replay report hi hp hc hmark) hsteps⟩
      · dsimp only
        rw [Program.run_bind_ok _ hcommit, Program.run_bind_ok _ hrun]
        rfl
      · rw [List.perm_iff_count]
        intro id
        simp only [InMemoryStateStore.accounted, operationIds, List.map_cons, List.count_append,
          List.count_cons, List.count_nil]
        omega
      · refine fun hr => ⟨fun id hid => ?_, fun id hid =>
          hsettles.rejected hi hp (hr.failed id hid)⟩
        rcases List.mem_append.mp hid with hid | hid
        · exact hsettles.replayed hi hp (hr.replayed id hid)
        · exact List.mem_singleton.mp hid ▸ hreplayed
    | error e =>
      obtain ⟨rfl, hrefuses⟩ := commitSelection_error hc
      have hconflict := run_isPendingLockConflict (s := s₁) i.selection.operationId e
      dsimp only
      split
      · rename_i heq
        cases heq
      · rename_i reason heq
        cases heq
        exact (hrefuses.storage reason rfl).elim
      · rename_i err hnot heq
        cases heq
        rw [Program.run_bind_ok _ hconflict]
        cases hb : s₁.pendingLockConflict i.selection.operationId e with
        | true =>
          obtain ⟨pass, s', hrun, hpassed, hsteps⟩ := ih h
            (fun j hj => hlisted j (List.mem_cons_of_mem _ hj)) hnd' report
          refine ⟨pass.defer i, s', ?_, .defer hlisted hnd (.of_conflict hrefuses hb) hpassed,
            hsteps⟩
          rw [if_pos rfl, Program.run_bind_ok _ hrun]
          rfl
        | false =>
          obtain ⟨s₂, hmark, hsettles, hrejected⟩ := settles_fail hi hp
            fun op hop => phase_of_pending h hi hp hop
          have hfail : Program.run exec
              (StoreCall.markIntentFailed i.selection.operationId).invoke s₁ = (.ok (), s₂) := hmark
          obtain ⟨pass, s', hrun, hpassed, hsteps⟩ := ih (h.trans hsettles.run)
            (hlisted.settles hnd hsettles) hnd'
            { report with
              failedOperations := report.failedOperations ++ [i.selection.operationId] }
          refine ⟨pass.resolved i, s', ?_,
            .resolved h.wellKeyed (by decide) hsettles ?_ ?_ hpassed,
            .head (.reject report hi hp hc hb hmark) hsteps⟩
          · rw [if_neg (by decide), Program.run_bind_ok _ hfail, Program.run_bind_ok _ hrun]
            rfl
          · rw [List.perm_iff_count]
            intro id
            simp only [InMemoryStateStore.accounted, operationIds, List.map_cons,
              List.count_append, List.count_cons, List.count_nil]
            omega
          · refine fun hr => ⟨fun id hid => hsettles.replayed hi hp (hr.replayed id hid),
              fun id hid => ?_⟩
            rcases List.mem_append.mp hid with hid | hid
            · exact hsettles.rejected hi hp (hr.failed id hid)
            · exact List.mem_singleton.mp hid ▸ hrejected

end Pass

/-! ## Draining -/

/-- No intent is pending. -/
def Drained (s : InMemoryStateStore) : Prop :=
  ∀ id i, s.getIntent id = some i → i.status ≠ .pending

variable (owner) in
/-- Passes over all pending intents end with none. -/
theorem recoverLoop_drains (h : Run freeRules empty s) (rounds : ℕ)
    {pending : List OperationIntent} (hlen : pending.length ≤ rounds) (hlisted : s.Listed pending)
    (hall : ∀ id i, s.getIntent id = some i → i.status = .pending → i ∈ pending)
    (hnd : (operationIds pending).Nodup) {report : RecoveryReport} (hr : s.Reported report) :
    ∃ report' s', Program.run exec (Orchestrator.recoverLoop owner rounds pending hlen report) s =
      (.ok report', s') ∧ Run freeRules s s' ∧ s'.Drained ∧ s'.Reported report' ∧
        (accounted report' []).Perm (accounted report pending) ∧
          RecoverySteps owner (s, report) (s', report') := by
  induction rounds generalizing s pending report with
  | zero =>
    obtain rfl := List.length_eq_zero_iff.mp (Nat.le_zero.mp hlen)
    exact ⟨report, s, rfl, .refl, fun id i hi hp => List.not_mem_nil (hall id i hi hp), hr,
      .refl _, .refl⟩
  | succ rounds ih =>
    cases pending with
    | nil =>
      exact ⟨report, s, rfl, .refl, fun id i hi hp => List.not_mem_nil (hall id i hi hp), hr,
        .refl _, .refl⟩
    | cons i pending =>
      obtain ⟨pass, s', hrun, hpassed, hpasses⟩ := recoverPass_passed owner h hlisted hnd report
      unfold Orchestrator.recoverLoop
      rw [Program.run_bind_ok _ hrun]
      by_cases hp : pass.progressed = true
      · rw [dif_pos hp]
        have hall' : ∀ id j, s'.getIntent id = some j → j.status = .pending →
            j ∈ pass.deferred := by
          intro id j hj hjp
          obtain ⟨hj', hdeferred⟩ := hpassed.remaining id j hj hjp
          exact hdeferred (hall id j hj' hjp)
        obtain ⟨report', s'', hrun', hsteps, hdrained, hreported, hperm, hrest⟩ :=
          ih (h.trans hpassed.run) (Nat.le_of_lt_succ (Nat.lt_of_lt_of_le (pass.fewer hp) hlen))
            hpassed.listed hall' (hnd.sublist (pass.sublist.map _)) (hpassed.reported hr)
        exact ⟨report', s'', hrun', hpassed.run.trans hsteps, hdrained, hreported,
          hperm.trans hpassed.accounted, hpasses.trans hrest⟩
      · -- every pending intent would be blocked by another one
        obtain ⟨-, -, hblocked⟩ := hpassed.stuck (Bool.not_eq_true _ ▸ hp)
        obtain ⟨hi, hip⟩ := hlisted i List.mem_cons_self
        exact (no_standoff h hi hip fun id j hj hjp => hblocked j (hall id j hj hjp)).elim

/-- The pending intents of a store are on record and pending. -/
theorem listed_listPendingIntents (hk : s.WellKeyed) : s.Listed s.listPendingIntents := by
  intro i hi
  obtain ⟨⟨id, hget⟩, hp⟩ := ((enumerates_listPendingIntents hk).2 i).mp hi
  exact ⟨(hk.intent id i hget).symm ▸ hget, hp⟩

theorem nodup_operationIds {pending : List OperationIntent} (hnd : pending.Nodup)
    (hlisted : s.Listed pending) : (operationIds pending).Nodup := by
  refine hnd.map_on fun i hi j hj heq => ?_
  have hij := (hlisted i hi).1
  rw [heq, (hlisted j hj).1] at hij
  exact (Option.some.inj hij).symm

/-- What a recovery from `s` that reports `report` and leaves `s'` guarantees. -/
structure Recovered (s : InMemoryStateStore) (report : RecoveryReport) (s' : InMemoryStateStore) :
    Prop where
  drained : s'.Drained
  replayed_nodup : report.replayedOperations.Nodup
  failed_nodup : report.failedOperations.Nodup
  disjoint : ∀ id ∈ report.replayedOperations, id ∉ report.failedOperations
  complete : ∀ id, id ∈ report.replayedOperations ∨ id ∈ report.failedOperations ↔
    ∃ i, s.getIntent id = some i ∧ i.status = .pending
  replayed : ∀ id ∈ report.replayedOperations, s'.Replayed id
  failed : ∀ id ∈ report.failedOperations, s'.Rejected id ∧ ∀ o, ¬ (s'.cell o).Owner id

/-- Recovery comes to its end from every state that methods cut off anywhere can leave. -/
theorem run_recoverPendingIntents (h : CutRun empty s) (owner : String) :
    ∃ report s', Program.run exec (Orchestrator.recoverPendingIntents owner) s =
      (.ok report, s') ∧ Run freeRules s s' ∧ s'.Drained ∧ s'.Reported report ∧
        (accounted report []).Perm (accounted ⟨[], []⟩ s.listPendingIntents) ∧
          RecoverySteps owner (s, ⟨[], []⟩) (s', report) := by
  have hrun := h.run
  obtain ⟨hnd, hmem⟩ := enumerates_listPendingIntents hrun.wellKeyed
  have hlisted := listed_listPendingIntents hrun.wellKeyed
  have hempty : s.Reported ⟨[], []⟩ :=
    ⟨fun _ hid => (List.not_mem_nil hid).elim, fun _ hid => (List.not_mem_nil hid).elim⟩
  exact recoverLoop_drains owner hrun _ (Nat.le_refl _) hlisted
    (fun id i hi hp => (hmem i).mpr ⟨⟨id, hi⟩, hp⟩) (nodup_operationIds hnd hlisted) hempty

/-- From every state that methods cut off anywhere can leave, recovery returns, commits or rejects
every pending intent, and reports which. -/
theorem recovery_drains (h : CutRun empty s) (owner : String) :
    ∃ report s', Program.run exec (Orchestrator.recoverPendingIntents owner) s =
      (.ok report, s') ∧ s.Recovered report s' := by
  have hrun := h.run
  have hk := hrun.wellKeyed
  obtain ⟨hnd, hmem⟩ := enumerates_listPendingIntents hk
  have hlisted := listed_listPendingIntents hk
  have hids := nodup_operationIds hnd hlisted
  obtain ⟨report, s', hresult, hsteps, hdrained, hreported, hperm, -⟩ :=
    run_recoverPendingIntents h owner
  have hperm' : (report.replayedOperations ++ report.failedOperations).Perm
      (operationIds s.listPendingIntents) := by
    simpa only [accounted, operationIds, List.map_nil, List.append_nil, List.nil_append] using hperm
  obtain ⟨hreplayed, hfailed, hdisjoint⟩ := List.nodup_append.mp (hperm'.nodup_iff.mpr hids)
  have hrun' : Run freeRules empty s' := hrun.trans hsteps
  have howners : s'.toLedger.OwnersLive := hrun'.invariant .empty fun _ _ hl hm =>
    hl.move (fun l u hu => (newRules_puts l u hu).2) hm
  refine ⟨report, s', hresult, hdrained, hreplayed, hfailed, ?_, ?_, hreported.replayed, ?_⟩
  · exact fun id hid hid' => hdisjoint id hid id hid' rfl
  · intro id
    rw [← List.mem_append, hperm'.mem_iff]
    constructor
    · intro hid
      obtain ⟨i, hi, rfl⟩ := List.mem_map.mp hid
      exact ⟨i, hlisted i hi⟩
    · rintro ⟨i, hi, hp⟩
      exact List.mem_map.mpr ⟨i, (hmem i).mpr ⟨⟨id, hi⟩, hp⟩, hk.intent id i hi⟩
  · intro id hid
    have hrejected := hreported.failed id hid
    refine ⟨hrejected, fun o howner => ?_⟩
    obtain ⟨i, hi, hp⟩ := hrejected
    obtain ⟨i', hi', hp'⟩ := (howners o id howner).intent
    rw [show s'.toLedger.intent id = some i from hi] at hi'
    cases hi'
    exact hp' hp

namespace Sample

def otherId : OperationId := ⟨"other"⟩

/-- Two payments are recorded for the one output there is, and neither is committed. -/
def contention : List Orchestrator.Method :=
  [.addAccount ⟨accountId, "account", [], capabilities⟩,
    .addScope ⟨scopeId, accountId, "descriptor", "derivation", capabilities, 0⟩,
    .reconcileSnapshot ⟨1, .full, [⟨outpoint, accountId, scopeId, 1000, .confirmed 1 1, .unspent⟩]⟩,
    .preparePendingOperation (.btcSend operationId accountId 500),
    .preparePendingOperation (.btcSend otherId accountId 500)]

end Sample

theorem recovery_drains_sample :
    ∃ report s', Program.run exec (Orchestrator.recoverPendingIntents "owner")
        (afterMethods "owner" Sample.contention empty) = (.ok report, s') ∧
      (afterMethods "owner" Sample.contention empty).Recovered report s' ∧
      report = ⟨[Sample.otherId], [Sample.operationId]⟩ := by
  have h : CutRun empty (afterMethods "owner" Sample.contention empty) :=
    cutRun_afterMethods "owner" _ (fun u hu => by simp [Sample.contention] at hu) _
  obtain ⟨report, s', hrun, hrecovered⟩ := recovery_drains h "owner"
  have hreport : (Program.run exec (Orchestrator.recoverPendingIntents "owner")
      (afterMethods "owner" Sample.contention empty)).1.toOption =
        some ⟨[Sample.otherId], [Sample.operationId]⟩ := by decide
  rw [hrun] at hreport
  exact ⟨report, s', hrun, hrecovered, Option.some.inj hreport⟩

end InMemoryStateStore

end Txoscope
