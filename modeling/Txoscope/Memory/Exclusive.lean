import Txoscope.Core.Exclusive
import Txoscope.Memory.Safety

/-!
# Inputs that are spent once in memory

The calls of an in-memory store are atomic, so no recorded intent is ever replaced, and whatever
calls are made, stale plans and crashed clients included, operations that are broadcast at any two
times have no input in common (`spends_once`).
-/

namespace Txoscope

namespace Ledger

/-- A run without replaced intents. -/
theorem Run.racy {rules : Rules} {replaces : Ledger → OperationSelection → Prop} {l l' : Ledger}
    (h : Run rules l l') : RacyRun rules replaces l l' := by
  induction h with
  | refl => exact .refl
  | tail _ hmove ih => exact ih.tail (.move hmove)

end Ledger

namespace InMemoryStateStore

variable {s s' : InMemoryStateStore}

/-- Whatever admissible calls are made in whatever order: once an operation was broadcast, no other
one that is on record and not rolled back ever has an input in common with it. -/
theorem spends_once {plans : ReconcilePlan → Prop} (h : Run (newRules plans) empty s)
    (h' : Run (newRules plans) s s') (id id' : OperationId) {op op' : PersistedOperation}
    {i i' : OperationIntent} (hop : s.getOperation id = some op)
    (hphase : op.phase = .broadcast ∨ op.phase = .awaitingConfirmation ∨
      op.phase = .awaitingL2Finality)
    (hi : s.getIntent id = some i) (hne : id' ≠ id) (hop' : s'.getOperation id' = some op')
    (hphase' : op'.phase ≠ .rollingBack) (hi' : s'.getIntent id' = some i') :
    i.selection.selectedOutpoints.Disjoint i'.selection.selectedOutpoints := by
  have hputs : ∀ (l : Ledger) u, (newRules plans).puts l u → l.utxo u.outpoint = none :=
    fun l u hu => (newRules_puts l u hu).1
  have hbefore : Ledger.RacyRun (newRules plans) Ledger.replacesPending Ledger.empty s.toLedger :=
    (h.toLedger .empty).2.racy
  have hafter : Ledger.RacyRun (newRules plans) Ledger.replacesPending s.toLedger s'.toLedger :=
    (h'.toLedger h.wellKeyed).2.racy
  have hexclusive : s.toLedger.Exclusive :=
    hbefore.invariant (fun _ _ hl hm => hl.move hputs hm) .empty
  have hattributed : s.toLedger.Attributed :=
    hbefore.invariant (fun _ _ hl hm => hm.attributed newRules_puts hl) .empty
  have hspending : ∀ o, (s.toLedger.cell o).BroadcastSpending :=
    hbefore.invariant (I := fun l => ∀ o, (l.cell o).BroadcastSpending)
      (fun _ _ hl hm => hm.broadcastSpending (fun l u hu => (newRules_puts l u hu).2) hl)
      fun _ _ _ h => (nomatch h)
  have hstarts : op.phase.startsSpending = true := by
    rcases hphase with hp | hp | hp <;> rw [hp] <;> rfl
  exact hafter.disjoint_of_broadcast hputs hexclusive hattributed hspending hop hstarts hi hne
    ⟨op', hop', hphase'⟩ hi'

namespace Sample

def broadcast : InMemoryStateStore := (state.completeOperation operationId .broadcast).2

/-- The operation is rolled back, and another one reserves an output that is new. -/
def replacing : List StoreCall :=
  let selection : OperationSelection :=
    ⟨⟨"other"⟩, [⟨"bb", 0⟩], scopeId, [⟨⟨"bb", 0⟩, .btcSend⟩], none⟩
  [.releaseOperation operationId .rollingBack,
    .putUtxo (ManagedUtxo.new ⟨"bb", 0⟩ accountId scopeId 1000), .persistIntent selection,
    .applyBatch ⟨selection, .selected, "owner"⟩]

end Sample

theorem spends_once_sample :
    ∃ i i', Sample.broadcast.getIntent Sample.operationId = some i ∧
      (Program.after exec Sample.replacing Sample.broadcast).getIntent ⟨"other"⟩ = some i' ∧
        i.selection.selectedOutpoints.Disjoint i'.selection.selectedOutpoints := by
  have hsent : Run freeRules empty Sample.broadcast :=
    Sample.run.tail (.call (StoreCall.completeOperation Sample.operationId .broadcast) trivial)
  refine ⟨_, _, rfl, rfl, ?_⟩
  have hreplaced : Run freeRules Sample.broadcast
      (Program.after exec Sample.replacing Sample.broadcast) := Program.steps_after (by decide)
  exact spends_once hsent hreplaced Sample.operationId ⟨"other"⟩ rfl (.inl rfl) rfl (by decide) rfl
    (by decide) rfl

end InMemoryStateStore

end Txoscope
