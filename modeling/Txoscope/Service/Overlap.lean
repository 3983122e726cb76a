import Txoscope.Core.Delayed
import Txoscope.Lib.Overlap
import Txoscope.Memory.Reconciling
import Txoscope.Service.Cleanup

/-!
# Reconciling next to another client

`reconcile_snapshot` lists the outputs, and applies its plan in a later call. `Overlap` is one
interleaving of these two calls with the calls of another client. What the other client does between
the two is not in the plan: `Overlap.serialises` says how far the result is still one of the two
serial orders if the other client reads and then writes once, and `Overlap.cleanup` how the releases
of a cleanup may be spread over the three phases.
-/

namespace Txoscope

/-- The reads that no plan changes. -/
def StoreCall.Apart : StoreCall → Prop
  | getAccount _ | getScope _ | getOperation _ | getIntent _ | listOperations
  | listPendingIntents => True
  | _ => False

namespace InMemoryStateStore

/-- The plan of a snapshot for the outputs of `listed`, applied to `s`. -/
def applyPlan (snapshot : ObservationSnapshot) (listed s : InMemoryStateStore) :
    InMemoryStateStore :=
  s.applyReconciliation (ReconciliationPlanner.planFor listed.listUtxos snapshot)

/-- One interleaving of `reconcile_snapshot` with a client `q`, from `s` to `s'`: the outputs are
listed in `listed`, and when the plan is applied in `found`, `q'` remains of the other client, which
returns `r`. -/
structure Overlap {α : Type} (snapshot : ObservationSnapshot) (q : Client α)
    (s listed : InMemoryStateStore) (q' : Client α) (found : InMemoryStateStore)
    (r : DomainResult α) (s' : InMemoryStateStore) : Prop where
  reaches : ∃ q₁, Program.Reaches exec q s q₁ listed ∧ Program.Reaches exec q₁ listed q' found
  left : Program.run exec q' (applyPlan snapshot listed found) = (r, s')

/-- The two calls of a reconciliation. -/
theorem reconcileSnapshot_calls (snapshot : ObservationSnapshot) :
    Orchestrator.reconcileSnapshot snapshot =
      Program.call .listUtxos fun r => (Program.done r).bind fun utxos =>
        Program.call (.applyReconciliation (ReconciliationPlanner.planFor utxos snapshot))
          fun r => (Program.done r).bind fun _ =>
            .done (.ok (ReconciliationPlanner.planFor utxos snapshot)) := by
  unfold Orchestrator.reconcileSnapshot ReconciliationPlanner.plan
  rw [bind_assoc]
  rfl

/-- Every interleaving of the two clients is an overlap. -/
theorem interleave_reconcileSnapshot {α : Type} {snapshot : ObservationSnapshot} {q : Client α}
    {s s' : InMemoryStateStore} {rb : DomainResult α} :
    (∃ ra, Program.Interleave exec (Orchestrator.reconcileSnapshot snapshot) q s ra rb s') ↔
      ∃ listed q' found, Overlap snapshot q s listed q' found rb s' := by
  constructor
  · rintro ⟨ra, h⟩
    rw [reconcileSnapshot_calls, Program.interleave_call_iff] at h
    obtain ⟨q₁, listed, hlisted, h⟩ := h
    obtain ⟨q', found, hfound, h⟩ := Program.interleave_call_iff.mp h
    exact ⟨listed, q', found, ⟨q₁, hlisted, hfound⟩, (Program.interleave_done_iff.mp h).2⟩
  · rintro ⟨listed, q', found, ⟨q₁, hlisted, hfound⟩, hleft⟩
    rw [reconcileSnapshot_calls]
    refine ⟨.ok (ReconciliationPlanner.planFor listed.listUtxos snapshot),
      Program.interleave_call_iff.mpr ⟨q₁, listed, hlisted, ?_⟩⟩
    refine Program.interleave_call_iff.mpr ⟨q', found, hfound, ?_⟩
    exact Program.interleave_done_iff.mpr ⟨rfl, hleft⟩

/-- The serial order in which the snapshot is reconciled first. -/
def reconciledBefore {α : Type} (snapshot : ObservationSnapshot) (q : Client α)
    (s : InMemoryStateStore) : InMemoryStateStore :=
  (Program.run exec q (s.reconciled snapshot)).2

/-- The serial order in which the snapshot is reconciled last. -/
def reconciledAfter {α : Type} (snapshot : ObservationSnapshot) (q : Client α)
    (s : InMemoryStateStore) : InMemoryStateStore :=
  (Program.run exec q s).2.reconciled snapshot

section Overlap

variable {α : Type} {snapshot : ObservationSnapshot} {q q' : Client α}
  {s listed found s' : InMemoryStateStore} {r : DomainResult α} {cs : List StoreCall}

theorem StoreCall.Apart.isRead {c : StoreCall} (h : c.Apart) : c.IsRead := by
  cases c <;> trivial

/-- The tables a plan has nothing to do with. -/
theorem applyAction_tables (s : InMemoryStateStore) (action : ReconciliationAction) :
    (s.applyAction action).accounts = s.accounts ∧ (s.applyAction action).scopes = s.scopes ∧
      (s.applyAction action).operations = s.operations ∧
      (s.applyAction action).intents = s.intents := by
  cases action with
  | discoverNew observed =>
    by_cases hmanaged : (s.utxos.get observed.outpoint.display).isSome = true
    · rw [show s.applyAction (.discoverNew observed) = s from if_pos hmanaged]
      exact ⟨rfl, rfl, rfl, rfl⟩
    · rw [show s.applyAction (.discoverNew observed) = _ from if_neg hmanaged]
      exact ⟨rfl, rfl, rfl, rfl⟩
  | refreshObserved | updateOnchainState | markSpent | reportConflict | clearConflict
    | updateAvailability | markMissing => exact ⟨rfl, rfl, rfl, rfl⟩

theorem applyPlan_tables (snapshot : ObservationSnapshot) (listed s : InMemoryStateStore) :
    (applyPlan snapshot listed s).accounts = s.accounts ∧
      (applyPlan snapshot listed s).scopes = s.scopes ∧
      (applyPlan snapshot listed s).operations = s.operations ∧
      (applyPlan snapshot listed s).intents = s.intents := by
  unfold applyPlan applyReconciliation
  generalize (ReconciliationPlanner.planFor listed.listUtxos snapshot).actions = actions
  induction actions generalizing s with
  | nil => exact ⟨rfl, rfl, rfl, rfl⟩
  | cons action actions ih =>
    obtain ⟨haccounts, hscopes, hoperations, hintents⟩ := ih (s.applyAction action)
    obtain ⟨haccounts', hscopes', hoperations', hintents'⟩ := s.applyAction_tables action
    exact ⟨haccounts.trans haccounts', hscopes.trans hscopes', hoperations.trans hoperations',
      hintents.trans hintents'⟩

theorem exec_apart {c : StoreCall} (h : c.Apart) (snapshot : ObservationSnapshot)
    (listed s : InMemoryStateStore) :
    (exec c (applyPlan snapshot listed s)).1 = (exec c s).1 := by
  obtain ⟨haccounts, hscopes, hoperations, hintents⟩ := applyPlan_tables snapshot listed s
  cases c with
  | getAccount id => exact congrArg (fun t : Dict _ _ => Except.ok (t.get id)) haccounts
  | getScope id => exact congrArg (fun t : Dict _ _ => Except.ok (t.get id)) hscopes
  | getOperation id => exact congrArg (fun t : Dict _ _ => Except.ok (t.get id)) hoperations
  | getIntent id => exact congrArg (fun t : Dict _ _ => Except.ok (t.get id)) hintents
  | listOperations => exact congrArg (fun t : Dict _ _ => Except.ok t.values) hoperations
  | listPendingIntents =>
    exact congrArg (fun t : Dict OperationId OperationIntent =>
      Except.ok (t.values.filter fun intent => intent.status = .pending)) hintents
  | _ => exact h.elim

/-- The calls of the other client, cut where the outputs are listed and where the plan is applied.
Alone, the client leaves `t`. -/
structure Spliced (snapshot : ObservationSnapshot) (cs₀ cs₁ cs₂ : List StoreCall)
    (s listed found s' t : InMemoryStateStore) : Prop where
  listed_eq : listed = Program.after exec cs₀ s
  found_eq : found = Program.after exec cs₁ listed
  left : s' = Program.after exec cs₂ (applyPlan snapshot listed found)
  alone : t = Program.after exec cs₂ found

theorem Overlap.issued (h : Overlap snapshot q s listed q' found r s')
    (hq : Program.Issues exec StoreCall.Apart s cs q) :
    ∃ cs₀ cs₁ cs₂, cs = cs₀ ++ cs₁ ++ cs₂ ∧
      Spliced snapshot cs₀ cs₁ cs₂ s listed found s' (Program.run exec q s).2 := by
  obtain ⟨⟨q₁, hlisted, hfound⟩, hleft⟩ := h
  have hreads : ∀ c s, StoreCall.Apart c → (exec c s).2 = s := fun c s hc =>
    exec_read_snd (StoreCall.Apart.isRead hc) s
  obtain ⟨cs₀, cs', rfl, hcs₀, hq₁⟩ := hq.reaches hreads hlisted
  obtain ⟨cs₁, cs₂, rfl, hcs₁, hq'⟩ := hq₁.reaches hreads hfound
  refine ⟨cs₀, cs₁, cs₂, (List.append_assoc _ _ _).symm, hcs₀, hcs₁, ?_, ?_⟩
  · refine (congrArg Prod.snd hleft).symm.trans ?_
    exact hq'.run_snd hreads fun c hc => exec_apart hc snapshot listed found
  · rw [hlisted.run_eq, hfound.run_eq]
    exact hq'.run_snd hreads fun _ _ => rfl

/-- A client whose first call only reads has not started, or issues its calls. -/
theorem Overlap.started {c : StoreCall} {k : DomainResult c.Out → Client α}
    (cs : List StoreCall) (h : Overlap snapshot (.call c k) s listed q' found r s') (hc : c.IsRead)
    (hq : Program.Issues exec StoreCall.Apart s cs (k (exec c s).1)) :
    s' = s.reconciledBefore snapshot (.call c k) ∧ listed = s ∧ found = s ∨
      ∃ cs₀ cs₁ cs₂, cs = cs₀ ++ cs₁ ++ cs₂ ∧
        Spliced snapshot cs₀ cs₁ cs₂ s listed found s' (Program.run exec (.call c k) s).2 := by
  have hstate : (exec c s).2 = s := exec_read_snd hc s
  rw [Program.run_call, hstate]
  obtain ⟨⟨q₁, hlisted, hfound⟩, hleft⟩ := h
  cases hlisted with
  | refl =>
    cases hfound with
    | refl => exact .inl ⟨(congrArg Prod.snd hleft).symm, rfl, rfl⟩
    | call hfound =>
      rw [hstate] at hfound
      exact .inr (Overlap.issued ⟨⟨_, .refl _ _, hfound⟩, hleft⟩ hq)
  | call hlisted =>
    rw [hstate] at hlisted
    exact .inr (Overlap.issued ⟨⟨_, hlisted, hfound⟩, hleft⟩ hq)

/-! ### What the methods issue -/

/-- In `s` the client reads, and then it issues the call or nothing. -/
def MayIssue (s : InMemoryStateStore) (c : StoreCall) (q : Client α) : Prop :=
  ∃ cs, Program.Issues exec StoreCall.Apart s cs q ∧ (cs = [] ∨ cs = [c])

namespace MayIssue

variable {w : StoreCall}

theorem done (r : DomainResult α) : s.MayIssue w (Program.done r : Client α) :=
  ⟨[], .performs (.done r), .inl rfl⟩

theorem invoke (w : StoreCall) : s.MayIssue w w.invoke :=
  ⟨[w], .performs (.last fun r => ⟨r, rfl⟩), .inr rfl⟩

/-- A read, and what the rest of the client does with its answer. -/
theorem read {c : StoreCall} {a : c.Out} {f : c.Out → Client α} (hc : c.Apart)
    (ha : (exec c s).1 = .ok a) (h : s.MayIssue w (f a)) : s.MayIssue w (c.invoke >>= f) := by
  obtain ⟨cs, h, hcs⟩ := h
  refine ⟨cs, .read hc ?_, hcs⟩
  rw [ha]
  exact h

theorem drop (h : s.MayIssue w q) : s.MayIssue w (do let _ ← q) := by
  obtain ⟨cs, h, hcs⟩ := h
  exact ⟨cs, h.bind_done fun _ => ⟨.ok (), rfl⟩, hcs⟩

end MayIssue

theorem mayIssue_releaseOperation (s : InMemoryStateStore) (id : OperationId) :
    s.MayIssue (.releaseOperation id .rollingBack) (Orchestrator.releaseOperation id) := by
  unfold Orchestrator.releaseOperation Orchestrator.currentOperation
  simp only [bind_assoc]
  cases hop : s.getOperation id with
  | none => exact .read trivial (congrArg _ hop) (.done _)
  | some op =>
    refine .read trivial (congrArg _ hop) ?_
    simp only [pure_bind]
    split_ifs
    · exact .done _
    · exact .invoke _

theorem mayIssue_completeOperation (s : InMemoryStateStore) (id : OperationId)
    (phase : OperationPhase) (actual : List OutPoint) :
    s.MayIssue (.completeOperation id phase) (Orchestrator.completeOperation id phase actual) := by
  unfold Orchestrator.completeOperation Orchestrator.currentOperation
  simp only [bind_assoc]
  cases hop : s.getOperation id with
  | none => exact .read trivial (congrArg _ hop) (.done _)
  | some op =>
    refine .read trivial (congrArg _ hop) ?_
    simp only [pure_bind]
    cases hi : s.getIntent id with
    | none => exact .read trivial (congrArg _ hi) (.done _)
    | some intent =>
      refine .read trivial (congrArg _ hi) ?_
      dsimp only
      split_ifs
      · exact .done _
      · cases op.validateAdvance phase with
        | error e => exact .done _
        | ok advances =>
          change s.MayIssue _ (if !advances then _ else _)
          split_ifs
          · exact .done _
          · unfold Orchestrator.verifyLeavingSelected
            split_ifs
            · unfold Orchestrator.verifyPlannedInputs
              rw [bind_assoc]
              refine .read trivial (congrArg _ hi) ?_
              dsimp only
              split_ifs
              · exact .invoke _
              · exact .done _
            · exact .invoke _

/-- The operations that a cleanup picks. -/
def stale (s : InMemoryStateStore) (maxAge : ℕ) : List OperationId :=
  (s.listOperations.filter (Orchestrator.isStale s.tick maxAge)).map (·.operationId)

theorem performs_releaseStale (ids : List OperationId) (report : CleanupReport) :
    Program.Performs exec (ids.map .releaseSelectedOperation)
      (Orchestrator.releaseStale ids report) := by
  induction ids generalizing report with
  | nil => exact .done _
  | cons id ids ih =>
    refine .call (fun s => ⟨_, rfl⟩) fun released => ?_
    cases released with
    | none => exact ih _
    | some released => exact ih _

/-- Once a cleanup has read the tick, it issues a release for each operation it picked. -/
theorem Overlap.cleanup {maxAge : ℕ} {q' : Client Unit} {r : DomainResult Unit}
    (h : Overlap snapshot (do let _ ← Orchestrator.cleanupStaleReservations maxAge) s listed q' found
      r s') :
    s' = s.reconciledBefore snapshot (do let _ ← Orchestrator.cleanupStaleReservations maxAge) ∧
        listed = s ∧ found = s ∨
      ∃ ids₀ ids₁ ids₂, s.stale maxAge = ids₀ ++ ids₁ ++ ids₂ ∧
        Spliced snapshot (ids₀.map .releaseSelectedOperation)
          (ids₁.map .releaseSelectedOperation) (ids₂.map .releaseSelectedOperation) s listed found s'
          (Program.run exec (do let _ ← Orchestrator.cleanupStaleReservations maxAge) s).2 := by
  have hissues : Program.Issues exec StoreCall.Apart s
      ((s.stale maxAge).map .releaseSelectedOperation)
      (StoreCall.listOperations.invoke >>= fun operations => Orchestrator.releaseStale
        ((operations.filter (Orchestrator.isStale s.tick maxAge)).map (·.operationId)) ⟨[], []⟩) :=
    .read trivial (.performs (performs_releaseStale _ _))
  rcases h.started (c := .currentTick) _ trivial (hissues.bind_done fun _ => ⟨.ok (), rfl⟩) with
    hstart | ⟨cs₀, cs₁, cs₂, heq, h⟩
  · exact .inl hstart
  · obtain ⟨ids, ids₂, hids, h₀, rfl⟩ := List.map_eq_append_iff.mp heq
    obtain ⟨ids₀, ids₁, rfl, rfl, rfl⟩ := List.map_eq_append_iff.mp h₀
    exact .inr ⟨ids₀, ids₁, ids₂, hids, h⟩

end Overlap

end InMemoryStateStore

/-! ## What an overlap keeps -/

/-- The lock without the tick at which it was taken. -/
def OperationLock.undated (lock : OperationLock) : OperationLock := { lock with createdAt := 0 }

/-- The cell without the tick at which its lock was taken. -/
def Cell.undated (c : Cell) : Cell := { c with lock := c.lock.map OperationLock.undated }

namespace InMemoryStateStore

/-- The same phases, and cells that are the same up to what `f` blanks. -/
structure SameUpTo (f : Cell → Cell) (s t : InMemoryStateStore) : Prop where
  phase : ∀ id, (s.getOperation id).map (·.phase) = (t.getOperation id).map (·.phase)
  cell : ∀ o, f (s.cell o) = f (t.cell o)

/-- The same outputs, locks and phases, whatever the ticks. -/
abbrev SameRecords : InMemoryStateStore → InMemoryStateStore → Prop := SameUpTo Cell.undated

/-- The same outputs up to availability and conflict, the same locks and the same phases. -/
abbrev SameStanding : InMemoryStateStore → InMemoryStateStore → Prop :=
  SameUpTo fun c => c.standing.undated

/-- The same outputs with the same owners, the same locks and the same phases. -/
abbrev SameOwnership : InMemoryStateStore → InMemoryStateStore → Prop :=
  SameUpTo fun c => c.ownership.undated

/-- `s'` is `t` up to availabilities and conflicts, and it is `t` wherever the snapshot is silent or
the output did not change between the two calls. -/
structure Matches (snapshot : ObservationSnapshot) (listed found s' t : InMemoryStateStore) :
    Prop where
  standing : s'.SameStanding t
  unchanged : ∀ o, snapshot.Silent o ∨ listed.cell o = found.cell o →
    (s'.cell o).undated = (t.cell o).undated

/-- The rules of a client that puts in no output and applies no plan. -/
def localRules : Ledger.Rules := ⟨fun _ _ => False, fun _ _ => False⟩

section Kept

variable {α : Type} {snapshot : ObservationSnapshot} {q q' : Client α} {f : Cell → Cell}
  {s t listed found s' : InMemoryStateStore} {r : DomainResult α} {cs cs₀ cs₁ cs₂ : List StoreCall}

theorem SameUpTo.of_eq {s t : InMemoryStateStore}
    (hphase : ∀ id, (s.getOperation id).map (·.phase) = (t.getOperation id).map (·.phase))
    (hcell : ∀ o, s.cell o = t.cell o) : s.SameUpTo f t :=
  ⟨hphase, fun o => congrArg f (hcell o)⟩

theorem Matches.refl (s : InMemoryStateStore) : Matches snapshot listed found s s :=
  ⟨.of_eq (fun _ => rfl) fun _ => rfl, fun _ _ => rfl⟩

theorem SameRecords.matches (h : s'.SameRecords t) : Matches snapshot listed found s' t where
  standing := ⟨h.phase, fun o => congrArg Cell.standing (h.cell o)⟩
  unchanged o _ := h.cell o

/-- A client that keeps to admissible calls has made a run when the outputs are listed, and another
one when the plan is applied. -/
theorem Overlap.runs {rules : Ledger.Rules} (h : Overlap snapshot q s listed q' found r s')
    (hk : s.WellKeyed) (hq : Keeps rules [] q) : Run rules s listed ∧ Run rules listed found := by
  obtain ⟨⟨q₁, hlisted, hfound⟩, -⟩ := h
  have hmeets := hq s ⟨hk, fun _ hm => (List.not_mem_nil hm).elim⟩
  have hmeets₁ := hlisted.meets Interferes.refl hmeets
  exact ⟨hmeets.steps_of_cut Interferes.refl hlisted.cut,
    hmeets₁.steps_of_cut Interferes.refl hfound.cut⟩

/-- A client that puts in no output and applies no plan only moves outputs on. -/
theorem Overlap.continues (h : Overlap snapshot q s listed q' found r s') (hk : s.WellKeyed)
    (hq : Keeps localRules [] q) :
    listed.WellKeyed ∧ found.WellKeyed ∧ ∀ o, (listed.cell o).Continues (found.cell o) := by
  obtain ⟨hrun, hrun₁⟩ := h.runs hk hq
  have hkeyed := (hrun.toLedger hk).1
  obtain ⟨hkeyed₁, hledger⟩ := hrun₁.toLedger hkeyed
  exact ⟨hkeyed, hkeyed₁, hledger.continues (fun _ _ => id) (fun _ _ => id)⟩

/-- A late plan acts on every cell by the actions planned from the listed output. -/
theorem cell_applyPlan (hk : listed.WellKeyed) (s : InMemoryStateStore) (o : OutPoint) :
    (applyPlan snapshot listed s).cell o =
      (s.cell o).reconcileFrom snapshot o (listed.getUtxo o) := by
  have hlist := enumerates_listUtxos hk
  have hactions := Ledger.actionsOn_planFor hk.toLedger hlist.1 hlist.2 snapshot o
  have hcell := congrArg (fun l => l.cell o) (s.toLedger_applyReconciliation
    (ReconciliationPlanner.planFor listed.listUtxos snapshot))
  refine hcell.trans ?_
  change (ReconcilePlan.actionsOn _ o).foldl Cell.act (s.cell o) = _
  rw [hactions]
  rfl

/-- A plan changes no operation. -/
theorem getOperation_applyPlan (snapshot : ObservationSnapshot) (listed s : InMemoryStateStore)
    (id : OperationId) : (applyPlan snapshot listed s).getOperation id = s.getOperation id :=
  congrArg (fun operations : Dict _ _ => operations.get id) (applyPlan_tables snapshot listed s).2.2.1

/-- An output that did not change before the plan was applied is reconciled. -/
theorem cell_applyPlan_of_eq (hd : snapshot.Distinct) (hk : listed.WellKeyed) {o : OutPoint}
    (h : listed.cell o = found.cell o) :
    (applyPlan snapshot listed found).cell o = (found.cell o).reconcile snapshot o := by
  have hutxo : listed.getUtxo o = (found.cell o).utxo := congrArg Cell.utxo h
  rw [cell_applyPlan hk, hutxo, Cell.reconcileFrom_utxo hd]

/-- A late plan does what a plan made on the spot does, but for availabilities and conflicts. -/
theorem matches_applyPlan (hd : snapshot.Distinct) (hlisted : listed.WellKeyed)
    (hfound : found.WellKeyed) (h : ∀ o, (listed.cell o).Continues (found.cell o)) :
    Matches snapshot listed found (applyPlan snapshot listed found) (found.reconciled snapshot) := by
  refine ⟨⟨fun id => ?_, fun o => ?_⟩, fun o ho => congrArg Cell.undated ?_⟩
  · rw [getOperation_applyPlan, reconciled_eq]
    exact congrArg _ (getOperation_applyPlan snapshot found found id).symm
  · rw [cell_reconciled_of_distinct hfound hd, cell_applyPlan hlisted]
    exact congrArg Cell.undated ((h o).standing_reconcileFrom hd o)
  · rw [cell_reconciled_of_distinct hfound hd]
    rcases ho with ho | heq
    · rw [cell_applyPlan hlisted, Cell.reconcileFrom_of_silent ho, Cell.reconcile_of_silent hd ho]
    · exact cell_applyPlan_of_eq hd hlisted heq

/-! ### One write -/

/-- A client that writes at most once: a serial order up to standing, and exactly where the output
did not change between the two calls. -/
theorem Overlap.serialises {w : StoreCall} (h : Overlap snapshot q s listed q' found r s')
    (hq : s.MayIssue w q) (hkeeps : Keeps localRules [] q) (hd : snapshot.Distinct)
    (hk : s.WellKeyed) :
    Matches snapshot listed found s' (s.reconciledBefore snapshot q) ∨
      Matches snapshot listed found s' (s.reconciledAfter snapshot q) := by
  obtain ⟨hlisted, hfound, hcontinues⟩ := h.continues hk hkeeps
  obtain ⟨cs, hissues, hcs⟩ := hq
  obtain ⟨cs₀, cs₁, cs₂, rfl, hspliced⟩ := h.issued hissues
  cases cs₂ with
  | nil =>
    -- the write came before the plan was applied
    have halone : (Program.run exec q s).2 = found := hspliced.alone
    have hleft : s' = applyPlan snapshot listed found := hspliced.left
    unfold reconciledAfter
    rw [halone, hleft]
    exact .inr (matches_applyPlan hd hlisted hfound hcontinues)
  | cons c cs =>
    -- nothing was written before the plan was applied
    have hlength : (cs₀ ++ cs₁ ++ c :: cs).length ≤ 1 := by
      rcases hcs with hcs | hcs <;> simp [hcs]
    simp only [List.length_append, List.length_cons] at hlength
    obtain rfl : cs₀ = [] := List.length_eq_zero_iff.mp (by omega)
    obtain rfl : cs₁ = [] := List.length_eq_zero_iff.mp (by omega)
    have hstart : listed = s := hspliced.listed_eq
    have hleft : s' = Program.after exec (c :: cs) (applyPlan snapshot listed found) :=
      hspliced.left
    rw [show found = listed from hspliced.found_eq, hstart] at hleft
    have hbefore := hissues.run_snd (fun c s hc => exec_read_snd (StoreCall.Apart.isRead hc) s)
      fun c hc => exec_apart hc snapshot s s
    have heq : s' = s.reconciledBefore snapshot q := hleft.trans hbefore.symm
    exact .inl (heq ▸ .refl s')

end Kept

end InMemoryStateStore

end Txoscope
