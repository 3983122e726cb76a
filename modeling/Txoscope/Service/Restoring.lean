import Txoscope.Core.Restoring
import Txoscope.Memory.Reconciling
import Txoscope.Service.Runs

/-!
# No output gets stuck

Whatever an output went through, as long as it is neither owned nor being spent one observation that
confirms what is recorded of it puts it on offer again (`reconcile_restores`).
-/

namespace Txoscope

namespace InMemoryStateStore

variable {snapshots : ObservationSnapshot → Prop} {s : InMemoryStateStore}

theorem Run.restorable_of_service (h : Run (serviceRules snapshots) empty s) :
    s.toLedger.Restorable :=
  h.invariant_keyed .empty fun _ _ hk hl hm => hl.move (fun _ _ hu => False.elim hu)
    (fun l plan hplan => by
      obtain ⟨utxos, snapshot, -, hutxos, rfl⟩ := hplan
      exact ⟨utxos, snapshot, hutxos.1, hutxos.2, rfl⟩) hk hm

/-- What a snapshot that mentions an outpoint once makes of its cell. -/
theorem cell_reconciled_of_about (hk : s.WellKeyed) {snapshot : ObservationSnapshot} {o : OutPoint}
    {observed : ObservedUtxo} (h : snapshot.about o = [observed]) :
    (s.reconciled snapshot).cell o = (s.cell o).observe snapshot.timestamp observed := by
  have hlist := enumerates_listUtxos hk
  have hactions := Ledger.actionsOn_planFor hk.toLedger hlist.1 hlist.2 snapshot o
  unfold Cell.planAbout at hactions
  rw [h, List.flatMap_singleton, if_neg fun h => List.cons_ne_nil _ _ h.2, List.append_nil]
    at hactions
  rw [cell_reconciled, hactions]
  exact ReconciliationPlanner.foldl_planObserved observed (s.cell o)

theorem seenUnspent_of_restorable {u : ManagedUtxo} (hu : u.Restorable)
    (hunbound : u.operationBinding = none) (hspent : u.onchainState ≠ .spent)
    (hflight : u.onchainState ≠ .spendingInFlight) {observed : ObservedUtxo} {height time : ℕ}
    (hmatches : observed.Matches u) (hconfirmed : observed.confirmation = .confirmed height time)
    (timestamp : ℕ) :
    u.seenUnspent observed timestamp =
      { u with
        availability := .selectable
        onchainState := .confirmed
        observationConflict := none } := by
  have hspending : u.onchainState.isSpending = false := by
    cases hst : u.onchainState <;> simp_all [OnchainState.isSpending]
  have hmismatch : ReconciliationPlanner.observedMismatchMessage u observed = none := by
    obtain ⟨hvalue, haccount, hscope⟩ := hmatches
    simp [ReconciliationPlanner.observedMismatchMessage, hvalue, haccount, hscope]
  have havailability : u.seenAvailability observed false = .selectable := by
    unfold ManagedUtxo.seenAvailability
    rw [if_neg hflight, hunbound, hconfirmed]
    exact if_pos (hu hunbound hspending)
  unfold ManagedUtxo.seenUnspent
  rw [hmismatch, hconfirmed]
  dsimp only
  rw [if_neg hflight, Option.isSome_none, havailability]
  rfl

/-- An output that is neither owned nor being spent is selectable once a snapshot confirms what is
recorded of it. -/
theorem reconcile_restores (h : ServiceRun (fun _ => True) empty s) {o : OutPoint}
    {u : ManagedUtxo} (hu : s.getUtxo o = some u) (hunbound : u.operationBinding = none)
    (hspent : u.onchainState ≠ .spent) (hflight : u.onchainState ≠ .spendingInFlight)
    {snapshot : ObservationSnapshot} {height time : ℕ}
    (hsnapshot : snapshot.about o =
      [⟨o, u.accountId, u.scopeId, u.valueSats, .confirmed height time, .unspent⟩]) :
    ∃ summary s' u', Program.run exec (TxoscopeService.reconcileSnapshot snapshot) s =
        (.ok summary, s') ∧
      s'.getUtxo o = some u' ∧ u'.availability = .selectable ∧ u'.onchainState = .confirmed ∧
      u'.observationConflict = none ∧ u'.operationBinding = none ∧ s'.getLock o = none ∧
      (Program.run exec (Orchestrator.isOutpointSelectable o) s').1 = .ok true := by
  have hrun := h.run .empty
  have hk := hrun.wellKeyed
  have hlock : s.getLock o = none := by
    refine (hrun.owned_of_service.agrees o).unlocked ?_
    change (s.getUtxo o).bind (·.operationBinding) = none
    rw [hu]
    exact hunbound
  have hkeyed : (s.advanceTick 1).WellKeyed := hk.exec (.advanceTick 1)
  have hrestorable := hrun.restorable_of_service o u hu
  have hcell : ((s.advanceTick 1).reconciled snapshot).cell o =
      ⟨some { u with
        availability := .selectable
        onchainState := .confirmed
        observationConflict := none }, none⟩ := by
    rw [cell_reconciled_of_about hkeyed hsnapshot]
    change Cell.observe _ _ ⟨s.getUtxo o, s.getLock o⟩ = _
    rw [hu, hlock]
    unfold Cell.observe
    dsimp only
    rw [if_neg hspent, seenUnspent_of_restorable hrestorable hunbound hspent hflight
      ⟨rfl, rfl, rfl⟩ rfl]
  refine ⟨_, (s.advanceTick 1).reconciled snapshot, _, rfl, congrArg Cell.utxo hcell, rfl, rfl, rfl,
    hunbound, congrArg Cell.lock hcell, ?_⟩
  rw [run_isOutpointSelectable, hcell]
  unfold Cell.selectable
  simp [ManagedUtxo.canBeLocked, ManagedUtxo.isPolicySpendable, hunbound]

namespace Sample

def leftOut : TxoscopeService.Method := .reconcileSnapshot ⟨2, .full, []⟩

/-- The sample service after a full snapshot that left its output out. -/
def recovering : InMemoryStateStore := served [leftOut]

theorem recovering_run : ServiceRun (fun _ => True) empty recovering := by
  refine serviceRun_afterCalls _ _ _ (fun m hm => ?_) _
  simp only [setup, leftOut, List.cons_append, List.nil_append, List.mem_cons, List.not_mem_nil,
    or_false] at hm
  rcases hm with rfl | rfl | rfl <;> trivial

end Sample

theorem reconcile_restores_sample : ∃ summary s' u',
    Program.run exec (TxoscopeService.reconcileSnapshot Sample.snapshot) Sample.recovering =
      (.ok summary, s') ∧
    s'.getUtxo Sample.outpoint = some u' ∧ u'.availability = .selectable ∧
    u'.onchainState = .confirmed ∧ u'.observationConflict = none ∧ u'.operationBinding = none ∧
    s'.getLock Sample.outpoint = none ∧
    (Program.run exec (Orchestrator.isOutpointSelectable Sample.outpoint) s').1 = .ok true :=
  have hu : Sample.recovering.getUtxo Sample.outpoint = some
      ⟨Sample.outpoint, Sample.accountId, Sample.scopeId, 1000, .confirmed, .recovering, .general,
        none, none⟩ := rfl
  reconcile_restores Sample.recovering_run hu rfl (by decide) (by decide) rfl

end InMemoryStateStore

end Txoscope
