import Txoscope.Core.Holding
import Txoscope.Core.Racing

/-!
# Operations that exclude each other

As long as a recorded intent is only replaced by its own selection, an operation that is on record
and not rolled back holds every input of its selection, except for those that were seen spent, and
no other such operation lists one of them (`Exclusive`). From the broadcast of an operation on no
other one takes its inputs, so operations that are broadcast at any two times of a run have no input
in common (`RacyRun.disjoint_of_broadcast`).
-/

namespace Txoscope

namespace Cell

variable {c : Cell} {id : OperationId} {batch : StateBatch} {purpose : LockPurpose}

/-- An output that is held is not taken for another operation. -/
theorem Held.not_holdable (h : c.Held id) (hne : batch.selection.operationId ≠ id) :
    ¬ c.Holdable batch purpose := by
  obtain ⟨phase, -, k, hk, howner⟩ := h
  intro hc
  cases hc with
  | free u utxo spendable lock =>
    rw [lock] at hk
    cases hk
  | held u k' utxo binding lock owner =>
    rw [lock] at hk
    cases hk
    exact hne (owner.symm.trans howner)

/-- An output on its way to the chain is not taken for another operation. -/
theorem not_holdable_of_spendingBy (h : Ledger.SpendingBy id c)
    (hne : batch.selection.operationId ≠ id) : ¬ c.Holdable batch purpose := by
  obtain ⟨⟨u, hu, hs⟩, howner⟩ := h
  intro hc
  cases hc with
  | free v utxo spendable =>
    rw [hu] at utxo
    cases utxo
    rw [(ManagedUtxo.isPolicySpendable_iff.mp spendable).2.1] at hs
    cases hs
  | held v k utxo binding lock owner => exact hne (howner _ (.inl ⟨k, lock, owner⟩))

theorem spendingBy_of_retired (h : Ledger.Retired c) (id : OperationId) :
    Ledger.SpendingBy id c := ⟨h.1.isSpending, fun id' hown => (h.2 id' hown).elim⟩

end Cell

namespace Ledger

variable {rules : Rules} {replaces : Ledger → OperationSelection → Prop} {l l' : Ledger}
  {id : OperationId} {o : OutPoint}

/-- The operation is on record and was not rolled back. -/
def Running (l : Ledger) (id : OperationId) : Prop :=
  ∃ op, l.operation id = some op ∧ op.phase ≠ .rollingBack

/-! ## How an operation starts to run -/

/-- What a move does that accepts a batch. -/
structure Accepts (l l' : Ledger) (batch : StateBatch) : Prop where
  recorded : ∃ i, l.intent batch.selection.operationId = some i
  admits : l.Admits batch
  cell : l'.cell = l.holdCells batch
  operation : ∃ op', l'.operation =
    Function.update l.operation batch.selection.operationId (some op')
  intent : l'.intent = l.intent

/-- An operation that runs after a move ran before it, or the move accepted its batch. -/
theorem RacyMove.running_cases (hmove : RacyMove rules replaces l l') (h : l'.Running id) :
    l.Running id ∨ ∃ batch, batch.selection.operationId = id ∧ Accepts l l' batch := by
  obtain ⟨op, hop, hphase⟩ := h
  have hsame : l'.operation = l.operation → l.Running id := fun heq => ⟨op, heq ▸ hop, hphase⟩
  have hstopped : ∀ {id' op'}, op'.phase = .rollingBack →
      l'.operation = Function.update l.operation id' (some op') → l.Running id := by
    intro id' op' hrolling heq
    rw [heq, Function.update_apply] at hop
    split_ifs at hop
    · cases hop
      exact (hphase hrolling).elim
    · exact ⟨op, hop, hphase⟩
  cases hmove with
  | replace _ _ _ _ operation => exact .inl (hsame operation)
  | move hmove =>
    cases hmove with
    | quiet _ operation | put _ _ _ operation | record _ _ _ _ operation
    | commit _ _ _ _ _ operation | fail _ _ _ _ _ _ operation | reconcile _ _ _ operation =>
      exact .inl (hsame operation)
    | failSelected _ _ _ _ _ _ _ _ _ phase' operation | release _ _ _ phase' operation =>
      exact .inl (hstopped phase' operation)
    | advance id' _ op₀ _ _ running _ _ forward _ _ operation =>
      refine .inl ?_
      by_cases hid : id = id'
      · exact ⟨op₀, hid ▸ running, (OperationPhase.canAdvance_ne_rollingBack forward).1⟩
      · rw [operation, Function.update_of_ne hid] at hop
        exact ⟨op, hop, hphase⟩
    | hold batch i op' recorded admits selected cell _ operation intent =>
      by_cases hid : batch.selection.operationId = id
      · exact .inr ⟨batch, hid, ⟨i, recorded⟩, admits, cell, ⟨op', operation⟩, intent⟩
      · rw [operation, Function.update_of_ne (Ne.symm hid)] at hop
        exact .inl ⟨op, hop, hphase⟩

/-- A batch is accepted for the selection that was recorded, and takes every input of it. -/
theorem Accepts.takes {batch : StateBatch} (h : Accepts l l' batch) {i : OperationIntent}
    (hi : l.intent batch.selection.operationId = some i)
    (ho : o ∈ i.selection.selectedOutpoints) :
    (∃ purpose, (l.cell o).Holdable batch purpose) ∧
      (l'.cell o).Held batch.selection.operationId := by
  rw [(h.admits.intent i hi).2, h.admits.authorised.wellFormed.mem_iff] at ho
  obtain ⟨e, he, rfl⟩ := List.mem_map.mp ho
  refine ⟨⟨e.purpose, h.admits.holdable e he⟩, ?_⟩
  rw [h.cell]
  rcases l.holdCells_cases batch e.outpoint with ⟨e', he', hsame, heq⟩ | ⟨hnone, -⟩
  · rw [heq]
    exact ⟨_, Cell.heldBy_hold l.tick (hsame ▸ h.admits.holdable e' he')⟩
  · exact (hnone e he rfl).elim

/-! ## What stays with an operation that runs -/

/-- While an operation runs, a racy move leaves what it holds or finds it spent. -/
theorem RacyMove.held (hputs : ∀ l u, rules.puts l u → l.utxo u.outpoint = none)
    (hmove : RacyMove rules replaces l l') (hrunning : l'.Running id) (h : (l.cell o).Held id) :
    (l'.cell o).Held id ∨ Retired (l'.cell o) := by
  have hne : ∀ {id' : OperationId} {op₁ : PersistedOperation}, op₁.phase = .rollingBack →
      l'.operation = Function.update l.operation id' (some op₁) → id ≠ id' := by
    rintro id' op₁ hrolling heq rfl
    obtain ⟨op, hop, hphase⟩ := hrunning
    rw [heq, Function.update_self] at hop
    cases hop
    exact hphase hrolling
  cases hmove with
  | replace _ _ _ cell => exact .inl (cell ▸ h)
  | move hmove =>
    cases hmove with
    | quiet cell | record _ _ _ cell | commit _ _ _ _ cell | fail _ _ _ _ _ cell =>
      exact .inl (cell ▸ h)
    | put u puts cell =>
      refine .inl ?_
      rw [cell, Function.update_of_ne]
      · exact h
      · rintro rfl
        obtain ⟨phase, hheld⟩ := h
        obtain ⟨v, hv, -⟩ := Cell.binding_eq_some_iff.mp hheld.binding
        have hnone : (l.cell u.outpoint).utxo = none := hputs l u puts
        rw [hnone] at hv
        cases hv
    | failSelected id' _ _ op₁ _ _ _ _ cell phase' operation
    | release id' op₁ cell phase' operation =>
      rw [cell]
      exact .inl (h.release (hne phase' operation))
    | hold batch _ _ _ admits _ cell =>
      obtain ⟨phase, hheld⟩ := h
      refine .inl ⟨phase, ?_⟩
      rw [cell]
      rcases l.holdCells_cases batch o with ⟨e, he, rfl, heq⟩ | ⟨-, heq⟩
      · rw [heq, hheld.hold_eq (admits.holdable e he)]
        exact hheld
      · rw [heq]
        exact hheld
    | reconcile plan _ cell =>
      obtain ⟨phase, hheld⟩ := h
      rw [cell]
      exact (hheld.foldl_act _).imp_left fun h => ⟨phase, h⟩
    | advance id' phase' _ _ _ _ _ _ _ cell =>
      obtain ⟨phase, hheld⟩ := h
      rw [cell]
      by_cases hid : id = id'
      · subst hid
        obtain ⟨k, hk, howner⟩ := hheld.lock
        refine .inl ⟨phase', ?_, _, congrArg (Option.map _) hk, ?_⟩
        · rw [Cell.binding_advance, hheld.binding, Option.map_some, if_pos rfl]
        · dsimp only
          rw [if_pos howner]
          exact howner
      · exact .inl ⟨phase, hheld.advance hid⟩

/-- No other operation that runs lists the outpoint. -/
def Excludes (l : Ledger) (id : OperationId) (o : OutPoint) : Prop :=
  ∀ id' i, id' ≠ id → l.Running id' → l.intent id' = some i → o ∉ i.selection.selectedOutpoints

/-- Every operation that runs has a recorded intent. -/
def RunningRecorded (l : Ledger) : Prop := ∀ id, l.Running id → ∃ i, l.intent id = some i

/-- Nobody else lists an outpoint after a move that could not take it for somebody else. -/
theorem RacyMove.excludes (hmove : RacyMove rules replacesPending l l')
    (hrecorded : l.RunningRecorded)
    (htaken : ∀ (batch : StateBatch) purpose, batch.selection.operationId ≠ id →
      ¬ (l.cell o).Holdable batch purpose) (h : l.Excludes id o) : l'.Excludes id o := by
  intro id' i' hne hrunning hi' ho
  have hbefore : ∀ i, l.intent id' = some i → o ∈ i.selection.selectedOutpoints := by
    intro i hi
    obtain ⟨j, hj, hsame, -⟩ := hmove.intent_forward hi
    rw [hi'] at hj
    cases hj
    exact hsame ▸ ho
  rcases hmove.running_cases hrunning with hran | ⟨batch, rfl, haccepts⟩
  · obtain ⟨i, hi⟩ := hrecorded id' hran
    exact h id' i hne hran hi (hbefore i hi)
  · obtain ⟨i, hi⟩ := haccepts.recorded
    obtain ⟨⟨purpose, hholdable⟩, -⟩ := haccepts.takes hi (hbefore i hi)
    exact htaken batch purpose hne hholdable

/-! ## One state -/

/-- The operation has the outpoint for itself. -/
structure HasAlone (l : Ledger) (id : OperationId) (o : OutPoint) : Prop where
  held : (l.cell o).Held id ∨ Retired (l.cell o)
  excludes : l.Excludes id o

/-- Every operation that runs has the inputs of its recorded selection for itself. -/
def Exclusive (l : Ledger) : Prop :=
  ∀ id, l.Running id → ∃ i, l.intent id = some i ∧
    ∀ o ∈ i.selection.selectedOutpoints, l.HasAlone id o

theorem Exclusive.empty : Ledger.empty.Exclusive := fun _ ⟨_, hop, _⟩ => (nomatch hop)

theorem Exclusive.runningRecorded (h : l.Exclusive) : l.RunningRecorded := fun id hrunning =>
  (h id hrunning).imp fun _ hi => hi.1

theorem HasAlone.not_holdable (h : l.HasAlone id o) {batch : StateBatch} {purpose : LockPurpose}
    (hne : batch.selection.operationId ≠ id) : ¬ (l.cell o).Holdable batch purpose := by
  rcases h.held with hheld | hretired
  · exact hheld.not_holdable hne
  · exact Cell.not_holdable_of_spendingBy (Cell.spendingBy_of_retired hretired id) hne

theorem Exclusive.hasAlone (h : l.Exclusive) {i : OperationIntent} (hrunning : l.Running id)
    (hi : l.intent id = some i) (ho : o ∈ i.selection.selectedOutpoints) : l.HasAlone id o := by
  obtain ⟨j, hj, hall⟩ := h id hrunning
  rw [hi] at hj
  cases hj
  exact hall o ho

/-- An outpoint that a batch can take is listed by no other operation that runs. -/
theorem Exclusive.excludes_of_holdable (h : l.Exclusive) {batch : StateBatch}
    {purpose : LockPurpose} (hholdable : (l.cell o).Holdable batch purpose) :
    l.Excludes batch.selection.operationId o := by
  intro id' i hne hrunning hi ho
  exact (h.hasAlone hrunning hi ho).not_holdable hne.symm hholdable

theorem Exclusive.move (hputs : ∀ l u, rules.puts l u → l.utxo u.outpoint = none)
    (h : l.Exclusive) (hmove : RacyMove rules replacesPending l l') : l'.Exclusive := by
  intro id hrunning
  rcases hmove.running_cases hrunning with hran | ⟨batch, rfl, haccepts⟩
  · obtain ⟨i, hi, hall⟩ := h id hran
    obtain ⟨i', hi', hsame, -⟩ := hmove.intent_forward hi
    refine ⟨i', hi', fun o ho => ?_⟩
    have hbefore := hall o (hsame ▸ ho)
    refine ⟨?_, hmove.excludes h.runningRecorded (fun _ _ => hbefore.not_holdable)
      hbefore.excludes⟩
    rcases hbefore.held with hheld | hretired
    · exact hmove.held hputs hrunning hheld
    · exact .inr (hmove.retired hputs hretired)
  · obtain ⟨i, hi⟩ := haccepts.recorded
    refine ⟨i, haccepts.intent ▸ hi, fun o ho => ?_⟩
    obtain ⟨⟨purpose, hholdable⟩, hheld⟩ := haccepts.takes hi ho
    refine ⟨.inl hheld, fun id' i' hne hrunning' hi' => ?_⟩
    -- the other operation ran before, and its intent is the same
    obtain ⟨op', hop'⟩ := haccepts.operation
    refine h.excludes_of_holdable hholdable id' i' hne ?_ (haccepts.intent ▸ hi')
    obtain ⟨op, hop, hphase⟩ := hrunning'
    rw [hop', Function.update_of_ne hne] at hop
    exact ⟨op, hop, hphase⟩

/-! ## Two states of a run -/

/-- An outpoint on its way to the chain for an operation, which nobody else lists. -/
structure SpendsAlone (l : Ledger) (id : OperationId) (o : OutPoint) : Prop where
  recorded : l.RunningRecorded
  spending : SpendingBy id (l.cell o)
  excludes : l.Excludes id o

theorem RacyMove.runningRecorded (hmove : RacyMove rules replacesPending l l')
    (h : l.RunningRecorded) : l'.RunningRecorded := by
  intro id hrunning
  rcases hmove.running_cases hrunning with hran | ⟨batch, rfl, haccepts⟩
  · obtain ⟨i, hi⟩ := h id hran
    obtain ⟨i', hi', -⟩ := hmove.intent_forward hi
    exact ⟨i', hi'⟩
  · obtain ⟨i, hi⟩ := haccepts.recorded
    exact ⟨i, haccepts.intent ▸ hi⟩

theorem SpendsAlone.move (hputs : ∀ l u, rules.puts l u → l.utxo u.outpoint = none)
    (h : l.SpendsAlone id o) (hmove : RacyMove rules replacesPending l l') :
    l'.SpendsAlone id o where
  recorded := hmove.runningRecorded h.recorded
  spending := hmove.spendingBy hputs h.spending
  excludes := hmove.excludes h.recorded
    (fun _ _ => Cell.not_holdable_of_spendingBy h.spending) h.excludes

/-- The inputs of an operation that was broadcast are on their way to the chain for it alone. -/
theorem Exclusive.spendsAlone (h : l.Exclusive) (hl : l.Attributed)
    (hspending : ∀ o, (l.cell o).BroadcastSpending) {op : PersistedOperation}
    {i : OperationIntent} (hop : l.operation id = some op)
    (hphase : op.phase.startsSpending = true) (hi : l.intent id = some i)
    (ho : o ∈ i.selection.selectedOutpoints) : l.SpendsAlone id o := by
  have hrunning : l.Running id := by
    refine ⟨op, hop, fun hrolling => ?_⟩
    rw [hrolling] at hphase
    cases hphase
  have halone := h.hasAlone hrunning hi ho
  refine ⟨h.runningRecorded, ?_, halone.excludes⟩
  rcases halone.held with ⟨phase, hheld⟩ | hretired
  · obtain ⟨u, hu, hb⟩ := Cell.binding_eq_some_iff.mp hheld.binding
    obtain ⟨op', hop', hsame⟩ := hl.phase o _ hheld.binding
    rw [hop] at hop'
    cases hop'
    exact hl.spendingBy (hspending o) hu hb (hsame ▸ hphase)
  · exact Cell.spendingBy_of_retired hretired id

/-- Once an operation was broadcast, no other operation that runs has an input in common with it. -/
theorem RacyRun.disjoint_of_broadcast
    (hputs : ∀ l u, rules.puts l u → l.utxo u.outpoint = none)
    (hrun : RacyRun rules replacesPending l l') (h : l.Exclusive) (hl : l.Attributed)
    (hspending : ∀ o, (l.cell o).BroadcastSpending) {op : PersistedOperation}
    {i i' : OperationIntent} {id' : OperationId} (hop : l.operation id = some op)
    (hphase : op.phase.startsSpending = true) (hi : l.intent id = some i) (hne : id' ≠ id)
    (hrunning : l'.Running id') (hi' : l'.intent id' = some i') :
    i.selection.selectedOutpoints.Disjoint i'.selection.selectedOutpoints := by
  intro o ho ho'
  have halone : l'.SpendsAlone id o := hrun.invariant (I := fun l => l.SpendsAlone id o)
    (fun _ _ h hm => h.move hputs hm) (h.spendsAlone hl hspending hop hphase hi ho)
  exact halone.excludes id' i' hne hrunning hi' ho'

end Ledger

end Txoscope
