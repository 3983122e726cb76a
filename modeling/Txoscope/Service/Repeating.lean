import Txoscope.Service.Choosing

/-!
# When a successful plan reserves

A selection that the operation has committed before is accepted without being applied again,
whatever became of its inputs meanwhile. `plan_reserves_iff` says exactly when a planning call that
succeeds leaves all its inputs reserved.
-/

namespace Txoscope

namespace InMemoryStateStore

open TxoscopeService

variable {s : InMemoryStateStore}

/-! ## Reserving -/

/-- If the call succeeds in `s`, every input it returns is bound to and locked by its operation. -/
def Reserving (s : InMemoryStateStore) (owner : String) (call : PlanCall) : Prop :=
  ∀ planned s', Program.run exec (call.program owner) s = (.ok planned, s') →
    ∀ o ∈ planned.selectedOutpoints, (s'.cell o).Held planned.operationId

/-- The operation has committed exactly the selection that the call stands for, and no longer
holds all of its inputs. -/
def Stale (s : InMemoryStateStore) (call : PlanCall) : Prop :=
  ∃ i, s.getIntent call.operationId = some i ∧ i.status = .committed ∧
    s.Describes call i.selection ∧
    ∃ o ∈ i.selection.selectedOutpoints, ¬ (s.cell o).Held call.operationId

/-- A planning call reserves what it returns, unless it repeats a selection that was committed
before and has lost an input since. -/
theorem plan_reserves_iff {snapshots : ObservationSnapshot → Prop}
    (h : ServiceRun snapshots empty s) (owner : String) (call : PlanCall) :
    s.Reserving owner call ↔ ¬ s.Stale call := by
  have hrun : Run (serviceRules snapshots) empty s := ServiceRun.run h .empty
  have hk := hrun.wellKeyed
  have hjustified : s.toLedger.Justified := hrun.invariant .empty fun _ _ hl hm => hl.move hm
  constructor
  · rintro hreserving ⟨i, hi, hcommitted, hdescribes, o, ho, hlost⟩
    have hchoose := (choose_eq_ok_iff h.sound call).mpr hdescribes
    obtain ⟨⟨result, s₁⟩, hrunChoose⟩ : ∃ x, Program.run exec call.choose s = x := ⟨_, rfl⟩
    rw [hrunChoose] at hchoose
    obtain rfl : result = .ok i.selection := hchoose
    have hchosen := chosen_of_choose hk hjustified hrunChoose
    have hi₁ : s₁.getIntent i.selection.operationId = some i := by
      rw [hchosen.expired.intent, hchosen.operationId]
      exact hi
    have hprogram : Program.run exec (call.program owner) s = (.ok i.selection.planned, s₁) := by
      rw [call.program_eq, Program.run_bind_ok _ hrunChoose,
        Program.run_bind_ok _ (applySelection_committed hi₁ rfl hcommitted)]
      rfl
    have hheld := hreserving _ s₁ hprogram o ho
    rw [show i.selection.planned.operationId = call.operationId from hchosen.operationId] at hheld
    exact hlost (hchosen.expired.held o _ hheld)
  · intro hfresh planned s' hprogram o ho
    rw [call.program_eq] at hprogram
    obtain ⟨⟨result, s₁⟩, hrunChoose⟩ : ∃ x, Program.run exec call.choose s = x := ⟨_, rfl⟩
    cases result with
    | error e =>
      rw [Program.run_bind_error _ hrunChoose] at hprogram
      cases hprogram
    | ok selection =>
      have hchosen := chosen_of_choose hk hjustified hrunChoose
      rw [Program.run_bind_ok _ hrunChoose] at hprogram
      obtain ⟨⟨result, s₂⟩, happly⟩ : ∃ x, Program.run exec
          (Orchestrator.applySelection owner selection) s₁ = x := ⟨_, rfl⟩
      cases result with
      | error e =>
        rw [Program.run_bind_error _ happly] at hprogram
        cases hprogram
      | ok u =>
        rw [Program.run_bind_ok _ happly] at hprogram
        cases hprogram
        rcases applySelection_ok happly with ⟨i, hi, hsel, hcommitted, rfl⟩ | hall
        · rw [hchosen.expired.intent, hchosen.operationId] at hi
          have hheld : (s.cell o).Held call.operationId := by
            by_contra hlost
            refine hfresh ⟨i, hi, hcommitted, ?_, o, hsel ▸ ho, hlost⟩
            rw [← choose_eq_ok_iff h.sound, hrunChoose, hsel]
          rw [show selection.planned.operationId = call.operationId from hchosen.operationId]
          exact hchosen.kept i hi hsel o hheld
        · exact ⟨_, hall o ho⟩

namespace Sample

def explicit : ApplyExplicitSelectionRequest := ⟨operationId, [outpoint], scopeId, none⟩

/-- The output was planned for the operation and is held by it. -/
def applied : InMemoryStateStore := served [.applyExplicitSelection explicit]

/-- The output was planned for the operation and released again. -/
def released : InMemoryStateStore := served [planned, .releaseOperation operationId]

theorem applied_run : ServiceRun ObservationSnapshot.Distinct empty applied :=
  served_run fun m hm => by
    rcases List.mem_singleton.mp hm with rfl
    trivial

theorem released_run : ServiceRun ObservationSnapshot.Distinct empty released :=
  served_run fun m hm => by
    rcases List.mem_cons.mp hm with rfl | hm
    · trivial
    · rcases List.mem_singleton.mp hm with rfl
      trivial

end Sample

/-- A plan that is repeated while its inputs are held succeeds, and they still are. -/
theorem plan_reserves_iff_sample :
    (Program.run exec (applyExplicitSelection "owner" Sample.explicit) Sample.applied).1 =
      .ok (ApplyExplicitSelectionRequest.selection Sample.explicit).planned ∧
    Sample.applied.Reserving "owner" (.applyExplicit Sample.explicit) := by
  refine ⟨rfl, (plan_reserves_iff Sample.applied_run "owner" _).mpr ?_⟩
  rintro ⟨i, hi, -, -, o, ho, hlost⟩
  cases hi
  rw [List.mem_singleton.mp ho] at hlost
  exact hlost ⟨.selected, rfl, _, rfl, rfl⟩

/-- A plan that is repeated after its operation was released succeeds and reserves nothing. -/
theorem plan_after_release : ∃ planned s', ServiceRun ObservationSnapshot.Distinct empty
      Sample.released ∧
    Program.run exec (planExactOutpoints "owner" ⟨Sample.operationId, Sample.accountId,
      [Sample.outpoint]⟩) Sample.released = (.ok planned, s') ∧
    planned.selectedOutpoints = [Sample.outpoint] ∧ s'.getLock Sample.outpoint = none ∧
    ¬ (s'.cell Sample.outpoint).Held planned.operationId := by
  refine ⟨_, _, Sample.released_run, rfl, rfl, rfl, ?_⟩
  rintro ⟨phase, -, k, hk, -⟩
  cases hk

end InMemoryStateStore

end Txoscope
