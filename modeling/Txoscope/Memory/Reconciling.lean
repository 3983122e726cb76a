import Txoscope.Core.Contradictions
import Txoscope.Core.UtxoStatus
import Txoscope.Memory.Safety

/-!
# Reconciling the in-memory store

`reconcile_snapshot` of one client: the snapshot is planned against the listed outputs, and the plan
is applied. A snapshot that mentions each outpoint at most once reconciles every cell on its own, so
the order of its observations and of the listing is irrelevant and observations of disjoint outpoints
can be delivered in one snapshot or in two. A snapshot that mentions an outpoint more than once is
worth more care: `contradicted_withheld_iff` says exactly when it puts on offer what it contradicts.
-/

namespace Txoscope

namespace InMemoryStateStore

/-- What any sequence of calls makes of the empty store. -/
def Reachable (s : InMemoryStateStore) : Prop :=
  Program.Steps exec (fun _ _ => True) SameContents empty s

theorem Reachable.wellKeyed {s : InMemoryStateStore} (h : Reachable s) : s.WellKeyed := by
  unfold Reachable at h
  induction h with
  | refl => exact .empty
  | tail _ hstep ih =>
    cases hstep with
    | call c _ => exact ih.exec c
    | env he => exact ih.sameContents he

theorem Run.reachable {rules : Ledger.Rules} {s : InMemoryStateStore} (h : Run rules empty s) :
    Reachable s :=
  Program.Steps.mono (fun _ _ _ => trivial) (fun _ _ he => he) h

/-- The store that `reconcile_snapshot` leaves. -/
def reconciled (snapshot : ObservationSnapshot) (s : InMemoryStateStore) : InMemoryStateStore :=
  (Program.run exec (Orchestrator.reconcileSnapshot snapshot) s).2

variable {s s' : InMemoryStateStore} {snapshot : ObservationSnapshot}

theorem reconciled_eq (snapshot : ObservationSnapshot) (s : InMemoryStateStore) :
    s.reconciled snapshot =
      s.applyReconciliation (ReconciliationPlanner.planFor s.listUtxos snapshot) := rfl

theorem WellKeyed.reconciled (hk : s.WellKeyed) (snapshot : ObservationSnapshot) :
    (s.reconciled snapshot).WellKeyed :=
  hk.exec (.applyReconciliation (ReconciliationPlanner.planFor s.listUtxos snapshot))

/-- The actions about an outpoint, applied to its cell. -/
theorem cell_reconciled (snapshot : ObservationSnapshot) (s : InMemoryStateStore) (o : OutPoint) :
    (s.reconciled snapshot).cell o =
      ((ReconciliationPlanner.planFor s.listUtxos snapshot).actionsOn o).foldl Cell.act
        (s.cell o) := by
  rw [reconciled_eq]
  exact congrArg (fun l => l.cell o) (s.toLedger_applyReconciliation _)

theorem run_isOutpointSelectable (s : InMemoryStateStore) (o : OutPoint) :
    (Program.run exec (Orchestrator.isOutpointSelectable o) s).1 = .ok (s.cell o).selectable := by
  have hutxo : Program.run exec (StoreCall.getUtxo o).invoke s = (.ok (s.getUtxo o), s) := rfl
  have hlock : Program.run exec (StoreCall.getLock o).invoke s = (.ok (s.getLock o), s) := rfl
  unfold Orchestrator.isOutpointSelectable Orchestrator.utxoStatus Cell.selectable cell
  rw [Program.run_bind, Program.run_bind_ok _ hutxo]
  cases s.getUtxo o with
  | none => rfl
  | some u =>
    rw [Program.run_bind_ok _ hlock]
    exact congrArg Except.ok (UtxoStatus.isSelectable_fromRecords u _)

/-! ## Distinct snapshots -/

/-- A snapshot that mentions each outpoint at most once reconciles every cell on its own. -/
theorem cell_reconciled_of_distinct (hk : s.WellKeyed) (hd : snapshot.Distinct) (o : OutPoint) :
    (s.reconciled snapshot).cell o = (s.cell o).reconcile snapshot o := by
  have hlist := enumerates_listUtxos hk
  have hledger : (s.reconciled snapshot).toLedger =
      { s.toLedger with
        cell := fun o => (s.toLedger.cell o).reconcile snapshot o }.nextTick := by
    rw [reconciled_eq, toLedger_applyReconciliation]
    exact Ledger.applyReconciliation_planFor hk.toLedger hlist.1 hlist.2 hd
  exact congrArg (fun l => l.cell o) hledger

theorem SameContents.cell_eq (h : s.SameContents s') (o : OutPoint) : s'.cell o = s.cell o :=
  Cell.ext (h.utxos _).symm (h.locks _).symm

end InMemoryStateStore

namespace ObservationSnapshot

variable {snapshot : ObservationSnapshot} {utxos before after : List ObservedUtxo}

theorem Distinct.of_perm (h : snapshot.Distinct) (hp : utxos.Perm snapshot.utxos) :
    ({ snapshot with utxos } : ObservationSnapshot).Distinct :=
  (hp.map _).nodup_iff.mpr h

/-- In a distinct snapshot the order of the observations does not matter to any outpoint. -/
theorem Distinct.about_of_perm (h : snapshot.Distinct) (hp : utxos.Perm snapshot.utxos)
    (o : OutPoint) : ({ snapshot with utxos } : ObservationSnapshot).about o = snapshot.about o := by
  have hperm : (({ snapshot with utxos } : ObservationSnapshot).about o).Perm (snapshot.about o) :=
    hp.filter _
  rcases h.about o with hnone | ⟨observed, hone⟩
  · rw [hnone] at hperm ⊢
    exact hperm.eq_nil
  · rw [hone] at hperm ⊢
    exact hperm.eq_singleton

theorem about_append (h : snapshot.utxos = before ++ after) (o : OutPoint) :
    snapshot.about o = ({ snapshot with utxos := before } : ObservationSnapshot).about o ++
      ({ snapshot with utxos := after } : ObservationSnapshot).about o := by
  unfold about
  rw [h, List.filter_append]

theorem Distinct.of_append (hd : snapshot.Distinct) (h : snapshot.utxos = before ++ after) :
    ({ snapshot with utxos := before } : ObservationSnapshot).Distinct ∧
      ({ snapshot with utxos := after } : ObservationSnapshot).Distinct := by
  unfold Distinct at hd
  rw [h, List.map_append, List.nodup_append] at hd
  exact ⟨hd.1, hd.2.1⟩

/-- The snapshot has an observation of `o`. -/
def Mentions (snapshot : ObservationSnapshot) (o : OutPoint) : Prop :=
  ∃ observed ∈ snapshot.utxos, observed.outpoint = o

theorem mentions_iff {o : OutPoint} : snapshot.Mentions o ↔ snapshot.about o ≠ [] := by
  unfold about Mentions
  simp [List.filter_eq_nil_iff]

end ObservationSnapshot

namespace Cell

variable {snapshot : ObservationSnapshot} {before after : List ObservedUtxo} {o : OutPoint}

/-- Observations of disjoint outpoints may come in one snapshot or in two. -/
theorem reconcile_append (hs : snapshot.scope = .incremental) (hd : snapshot.Distinct)
    (h : snapshot.utxos = before ++ after) (c : Cell) :
    c.reconcile snapshot o =
      (c.reconcile { snapshot with utxos := before } o).reconcile
        { snapshot with utxos := after } o := by
  have habout := ObservationSnapshot.about_append h o
  have hleave : ∀ (utxos : List ObservedUtxo) (c : Cell),
      c.leaveOut { snapshot with utxos } = c := by
    intro utxos c
    unfold leaveOut
    rw [if_neg (by rw [hs]; decide)]
  unfold reconcile
  rcases hd.about o with hnone | ⟨observed, hone⟩
  · rw [hnone] at habout ⊢
    obtain ⟨hbefore, hafter⟩ := List.nil_eq_append_iff.mp habout
    simp only [hbefore, hafter, hleave]
  · rw [hone] at habout ⊢
    rcases List.singleton_eq_append_iff.mp habout with ⟨hbefore, hafter⟩ | ⟨hbefore, hafter⟩
    · simp only [hbefore, hafter, hleave]
    · simp only [hbefore, hafter, hleave]

/-- A full snapshot says no more about what it mentions than an incremental one. -/
theorem reconcile_mentioned (h : snapshot.about o ≠ []) (scope : ObservationScope) (c : Cell) :
    c.reconcile { snapshot with scope } o = c.reconcile snapshot o := by
  have habout : ({ snapshot with scope } : ObservationSnapshot).about o = snapshot.about o := rfl
  unfold reconcile
  rw [habout]
  cases hs : snapshot.about o with
  | nil => exact (h hs).elim
  | cons observed observations => rfl

/-- What a full snapshot makes of a cell it does not mention. -/
theorem reconcile_unmentioned (hs : snapshot.scope = .full) (h : snapshot.about o = []) (c : Cell) :
    c.reconcile snapshot o =
      ⟨c.utxo.map fun u =>
        if u.onchainState ≠ .spent ∧ u.onchainState ≠ .spendingInFlight ∧
            u.availability ≠ .recovering then
          { u with
            availability := .recovering
            observationConflict :=
              if u.availability = .reserved then
                some ⟨"Reserved UTXO missing from full snapshot", snapshot.timestamp⟩
              else u.observationConflict }
        else u, c.lock⟩ := by
  obtain ⟨utxo, k⟩ := c
  unfold reconcile leaveOut
  simp only [h, hs, if_true]
  unfold overlook
  cases utxo with
  | none => rfl
  | some u =>
    have hiff : (u.onchainState ≠ .spent ∧ u.availability ≠ .recovering ∧
        u.onchainState ≠ .spendingInFlight) ↔ (u.onchainState ≠ .spent ∧
          u.onchainState ≠ .spendingInFlight ∧ u.availability ≠ .recovering) :=
      and_congr_right fun _ => and_comm
    simp only [hiff, Option.map_some]
    unfold ManagedUtxo.seenMissing ManagedUtxo.contradicted ManagedUtxo.markMissing
    by_cases hmarks : u.onchainState ≠ .spent ∧ u.onchainState ≠ .spendingInFlight ∧
      u.availability ≠ .recovering
    · rw [if_pos hmarks, if_pos hmarks]
    · rw [if_neg hmarks, if_neg hmarks]

end Cell

namespace InMemoryStateStore

variable {s : InMemoryStateStore} {snapshot : ObservationSnapshot}

/-- Reconciliation acts outpoint by outpoint. For a snapshot that mentions each outpoint at most
once, the order of its observations and of the tables does not matter, an incremental snapshot can
be delivered in two parts, it leaves alone what it does not mention, and a full one additionally
marks the unmentioned outputs as missing. -/
theorem reconciled_pointwise (hk : s.WellKeyed) (hd : snapshot.Distinct) :
    (∀ utxos s', utxos.Perm snapshot.utxos → s.SameContents s' → ∀ o,
      (s'.reconciled { snapshot with utxos }).cell o = (s.reconciled snapshot).cell o) ∧
    (∀ before after, snapshot.scope = .incremental → snapshot.utxos = before ++ after → ∀ o,
      (s.reconciled snapshot).cell o =
        ((s.reconciled { snapshot with utxos := before }).reconciled
          { snapshot with utxos := after }).cell o) ∧
    (snapshot.scope = .incremental → ∀ o, ¬snapshot.Mentions o →
      (s.reconciled snapshot).cell o = s.cell o) ∧
    (snapshot.scope = .full → ∀ o,
      (snapshot.Mentions o → (s.reconciled snapshot).cell o =
        (s.reconciled { snapshot with scope := .incremental }).cell o) ∧
      (¬snapshot.Mentions o →
        (s.reconciled snapshot).getLock o = s.getLock o ∧
        (s.reconciled snapshot).getUtxo o = (s.getUtxo o).map fun u =>
          if u.onchainState ≠ .spent ∧ u.onchainState ≠ .spendingInFlight ∧
              u.availability ≠ .recovering then
            { u with
              availability := .recovering
              observationConflict :=
                if u.availability = .reserved then
                  some ⟨"Reserved UTXO missing from full snapshot", snapshot.timestamp⟩
                else u.observationConflict }
          else u)) := by
  refine ⟨?_, ?_, ?_, ?_⟩
  · intro utxos s' hp hs o
    rw [cell_reconciled_of_distinct (hk.sameContents hs) (hd.of_perm hp),
      cell_reconciled_of_distinct hk hd, hs.cell_eq]
    unfold Cell.reconcile
    rw [hd.about_of_perm hp]
    rfl
  · intro before after hs h o
    obtain ⟨hbefore, hafter⟩ := hd.of_append h
    rw [cell_reconciled_of_distinct hk hd, cell_reconciled_of_distinct (hk.reconciled _) hafter,
      cell_reconciled_of_distinct hk hbefore]
    exact Cell.reconcile_append hs hd h _
  · intro hs o hno
    rw [ObservationSnapshot.mentions_iff, not_not] at hno
    rw [cell_reconciled_of_distinct hk hd]
    unfold Cell.reconcile Cell.leaveOut
    simp [hno, hs]
  · intro hs o
    constructor
    · intro hmentions
      have hd' : ({ snapshot with scope := .incremental } : ObservationSnapshot).Distinct := hd
      rw [cell_reconciled_of_distinct hk hd, cell_reconciled_of_distinct hk hd']
      exact (Cell.reconcile_mentioned (ObservationSnapshot.mentions_iff.mp hmentions) _ _).symm
    · intro hno
      rw [ObservationSnapshot.mentions_iff, not_not] at hno
      have hcell := cell_reconciled_of_distinct hk hd o
      rw [Cell.reconcile_unmentioned hs hno] at hcell
      exact ⟨congrArg Cell.lock hcell, congrArg Cell.utxo hcell⟩

namespace Sample

/-- The reserved output is seen unspent, next to an output that is new. -/
def fullSnapshot : ObservationSnapshot :=
  ⟨7, .full, [⟨outpoint, accountId, scopeId, 1000, .confirmed 1 1, .unspent⟩,
    ⟨⟨"bb", 1⟩, accountId, scopeId, 500, .mempool, .unspent⟩]⟩

end Sample

theorem reconciled_pointwise_sample :
    (Sample.state.reconciled { Sample.fullSnapshot with
        utxos := Sample.fullSnapshot.utxos.reverse }).cell Sample.outpoint =
      (Sample.state.reconciled Sample.fullSnapshot).cell Sample.outpoint :=
  (reconciled_pointwise Sample.run.wellKeyed (by decide)).1 _ _
    (List.reverse_perm _) (.refl _) Sample.outpoint

/-- Reconciling the same snapshot again changes no output and no lock, in whatever order the tables
are iterated over by then. -/
theorem reconciled_again (hk : s.WellKeyed) (hd : snapshot.Distinct) {s' : InMemoryStateStore}
    (h : (s.reconciled snapshot).SameContents s') (o : OutPoint) :
    (s'.reconciled snapshot).getUtxo o = (s.reconciled snapshot).getUtxo o ∧
      (s'.reconciled snapshot).getLock o = (s.reconciled snapshot).getLock o := by
  have hcell : (s'.reconciled snapshot).cell o = (s.reconciled snapshot).cell o := by
    rw [cell_reconciled_of_distinct ((hk.reconciled snapshot).sameContents h) hd, h.cell_eq,
      cell_reconciled_of_distinct hk hd]
    exact Cell.reconcile_reconcile snapshot o (s.cell o)
  exact ⟨congrArg Cell.utxo hcell, congrArg Cell.lock hcell⟩

theorem reconciled_again_sample :
    ((Sample.state.reconciled Sample.fullSnapshot).reconciled Sample.fullSnapshot).getUtxo
        Sample.outpoint = (Sample.state.reconciled Sample.fullSnapshot).getUtxo Sample.outpoint ∧
    ((Sample.state.reconciled Sample.fullSnapshot).reconciled Sample.fullSnapshot).getLock
        Sample.outpoint = (Sample.state.reconciled Sample.fullSnapshot).getLock Sample.outpoint :=
  reconciled_again Sample.run.wellKeyed (by decide) (.refl _) Sample.outpoint

/-! ## Contradicted outputs -/

theorem not_reopens_nil (c : Cell) : ¬c.Reopens [] := by
  rintro ⟨-, h⟩
  cases hu : c.utxo with
  | none => simp [hu] at h
  | some u =>
    simp only [hu] at h
    obtain ⟨observed, hmem, -⟩ := h.contradicted
    exact List.not_mem_nil hmem

/-- An outpoint is on offer against an observation of the snapshot exactly when its observations
reopen it. -/
theorem selectable_contradicted_iff (hk : s.WellKeyed) (snapshot : ObservationSnapshot)
    (o : OutPoint) :
    (((s.reconciled snapshot).cell o).selectable = true ∧
      ∃ observed ∈ snapshot.about o,
        observed.Contradicts ((s.reconciled snapshot).getUtxo o)) ↔
      (s.cell o).Reopens (snapshot.about o) := by
  have hlist := enumerates_listUtxos hk
  have hactions := Ledger.actionsOn_planFor hk.toLedger hlist.1 hlist.2 snapshot o
  by_cases habout : snapshot.about o = []
  · rw [habout]
    simp only [List.not_mem_nil, false_and, exists_false, and_false, false_iff]
    exact not_reopens_nil _
  · unfold Cell.planAbout at hactions
    rw [if_neg fun h => habout h.2, List.append_nil] at hactions
    have hcell := cell_reconciled snapshot s o
    rw [hactions] at hcell
    change _ ∧ (∃ observed ∈ snapshot.about o,
      observed.Contradicts ((s.reconciled snapshot).cell o).utxo) ↔ _
    rw [hcell]
    exact Cell.selectable_contradicted_iff (s.cell o)

/-- After a reconciliation no outpoint is selectable against an observation of the snapshot,
provided that the snapshot reopens no outpoint. -/
theorem contradicted_withheld_iff (hs : Reachable s) (snapshot : ObservationSnapshot) :
    (∀ o, (∃ observed ∈ snapshot.utxos, observed.outpoint = o ∧
        observed.Contradicts ((s.reconciled snapshot).getUtxo o)) →
      (Program.run exec (Orchestrator.isOutpointSelectable o) (s.reconciled snapshot)).1 =
        .ok false) ↔
      ∀ o, ¬(s.cell o).Reopens (snapshot.about o) := by
  refine forall_congr' fun o => ?_
  rw [← selectable_contradicted_iff hs.wellKeyed, run_isOutpointSelectable, Except.ok.injEq,
    ← Bool.not_eq_true]
  have hmem : (∃ observed ∈ snapshot.utxos, observed.outpoint = o ∧
      observed.Contradicts ((s.reconciled snapshot).getUtxo o)) ↔
        ∃ observed ∈ snapshot.about o, observed.Contradicts ((s.reconciled snapshot).getUtxo o) := by
    unfold ObservationSnapshot.about
    simp only [List.mem_filter, decide_eq_true_eq, and_assoc]
  rw [hmem, not_and']

namespace Sample

/-- A new output, seen in the mempool and missing. -/
def disputed : ObservationSnapshot :=
  ⟨7, .incremental, [⟨⟨"bb", 1⟩, accountId, scopeId, 500, .mempool, .unspent⟩,
    ⟨⟨"bb", 1⟩, accountId, scopeId, 500, .mempool, .missing⟩]⟩

end Sample

/-- What is not confirmed yet is not put on offer, though one of its observations says that it is
missing. -/
theorem contradicted_withheld_iff_sample :
    (∃ observed ∈ Sample.disputed.utxos, observed.outpoint = ⟨"bb", 1⟩ ∧
      observed.Contradicts ((Sample.state.reconciled Sample.disputed).getUtxo ⟨"bb", 1⟩)) ∧
    (Program.run exec (Orchestrator.isOutpointSelectable ⟨"bb", 1⟩)
      (Sample.state.reconciled Sample.disputed)).1 = .ok false := by
  have hcontradicted : ∃ observed ∈ Sample.disputed.utxos, observed.outpoint = ⟨"bb", 1⟩ ∧
      observed.Contradicts ((Sample.state.reconciled Sample.disputed).getUtxo ⟨"bb", 1⟩) :=
    ⟨_, List.mem_cons_of_mem _ List.mem_cons_self, rfl, trivial⟩
  refine ⟨hcontradicted, (contradicted_withheld_iff Sample.run.reachable Sample.disputed).mpr
    (fun o => ?_) _ hcontradicted⟩
  by_cases ho : o = ⟨"bb", 1⟩
  · subst ho
    rintro ⟨-, first, hfirst, hconfirmed, -⟩
    cases hfirst
    cases hconfirmed
  · have habout : Sample.disputed.about o = [] := by
      refine List.filter_eq_nil_iff.mpr fun observed hmem => ?_
      simp only [Sample.disputed, List.mem_cons, List.not_mem_nil, or_false] at hmem
      rcases hmem with rfl | rfl <;> simpa using Ne.symm ho
    rw [habout]
    exact not_reopens_nil _

/-- A new output that is seen unspent and, in the same snapshot, missing. -/
theorem missing_offered : ¬∀ s, Reachable s → ∀ (snapshot : ObservationSnapshot) (o : OutPoint),
    (∃ observed ∈ snapshot.utxos, observed.outpoint = o ∧
      observed.Contradicts ((s.reconciled snapshot).getUtxo o)) →
    (Program.run exec (Orchestrator.isOutpointSelectable o) (s.reconciled snapshot)).1 =
      .ok false := by
  intro h
  have hselectable := h Sample.state Sample.run.reachable
    ⟨7, .incremental, [⟨⟨"bb", 1⟩, Sample.accountId, Sample.scopeId, 500, .confirmed 1 1, .unspent⟩,
      ⟨⟨"bb", 1⟩, Sample.accountId, Sample.scopeId, 500, .confirmed 1 1, .missing⟩]⟩ ⟨"bb", 1⟩
    ⟨_, List.mem_cons_of_mem _ List.mem_cons_self, rfl, trivial⟩
  rw [run_isOutpointSelectable, Except.ok.injEq] at hselectable
  revert hselectable
  decide

/-- A snapshot that mentions each outpoint at most once reopens nothing. -/
theorem not_reopens_of_distinct {snapshot : ObservationSnapshot} (hd : snapshot.Distinct)
    (o : OutPoint) (c : Cell) : ¬c.Reopens (snapshot.about o) := by
  rcases hd.about o with hnone | ⟨observed, hone⟩
  · rw [hnone]
    exact not_reopens_nil c
  · rw [hone]
    exact Cell.not_reopens_singleton observed c

end InMemoryStateStore

end Txoscope
