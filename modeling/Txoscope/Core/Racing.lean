import Txoscope.Core.Lifecycle

/-!
# Ledgers whose intents may be replaced

A store that looks for a recorded intent in one step and writes the new one in another can replace
an intent that was recorded in between. `RacyMove` adds this to the moves of a ledger, where it
`replaces` an intent. In general the intent of an owner need not list what it owns any more, and it
can be pending again; what remains is `Attributed`: lock and binding agree, and they belong to an
operation that is on record in the phase of the binding and whose intent has not failed. If only a
pending intent is replaced, and by its own selection, the records agree as they do without races.
-/

namespace Txoscope

namespace Ledger

/-- A move, or a pending intent in the place of a recorded one. -/
inductive RacyMove (rules : Rules) (replaces : Ledger → OperationSelection → Prop)
    (l l' : Ledger) : Prop where
  | move (h : Move rules l l')
  | replace (selection : OperationSelection) (tick : ℕ) (may : replaces l selection)
      (cell : l'.cell = l.cell) (operation : l'.operation = l.operation)
      (intent : l'.intent =
        Function.update l.intent selection.operationId (some ⟨selection, .pending, tick⟩))

/-- Any number of such moves. -/
abbrev RacyRun (rules : Rules) (replaces : Ledger → OperationSelection → Prop) :
    Ledger → Ledger → Prop :=
  Relation.ReflTransGen (RacyMove rules replaces)

/-- Only a pending intent is replaced, and by its own selection. -/
def replacesPending (l : Ledger) (selection : OperationSelection) : Prop :=
  ∀ i, l.intent selection.operationId = some i → i.selection = selection ∧ i.status = .pending

variable {rules : Rules} {replaces : Ledger → OperationSelection → Prop} {l l' : Ledger}

/-- Every binding is of an operation on record, in the phase of the binding. -/
def BoundInPhase (l : Ledger) : Prop :=
  ∀ o b, (l.cell o).binding = some b →
    ∃ op, l.operation b.operationId = some op ∧ op.phase = b.phase

/-- Every outpoint is free, or belongs to a live operation as lock and binding say. -/
structure Attributed (l : Ledger) : Prop where
  agrees : ∀ o, (l.cell o).Agrees
  live : l.OwnersLive
  phase : l.BoundInPhase

theorem Attributed.empty : Ledger.empty.Attributed :=
  ⟨fun _ => .empty, .empty, fun _ _ h => (nomatch h)⟩

/-- A lock is on a managed output. -/
theorem Attributed.lock_managed (h : l.Attributed) {o : OutPoint} {k : OperationLock}
    (hk : l.lock o = some k) : ∃ u, l.utxo o = some u := by
  obtain ⟨u, b, hu, -⟩ := (h.agrees o).locked k hk
  exact ⟨u, hu⟩

/-! ## What a move keeps -/

theorem Move.agrees (hputs : ∀ l u, rules.puts l u → l.utxo u.outpoint = none ∧
      u.operationBinding = none) (h : ∀ o, (l.cell o).Agrees) (hmove : Move rules l l')
    (o : OutPoint) : (l'.cell o).Agrees := by
  cases hmove with
  | quiet cell | record _ _ _ cell | commit _ _ _ _ cell | fail _ _ _ _ _ cell =>
    rw [cell]
    exact h o
  | put u puts cell =>
    obtain ⟨hfree, hunbound⟩ := hputs l u puts
    rw [cell, Function.update_apply]
    split_ifs
    · exact .of_none hunbound ((h u.outpoint).unlocked (congrArg (Option.bind · _) hfree))
    · exact h o
  | failSelected id _ _ _ _ _ _ _ cell | release id _ cell =>
    rw [cell]
    exact (h o).release id
  | hold batch i op' recorded admits selected cell =>
    rw [cell]
    rcases l.holdCells_cases batch o with ⟨e, he, rfl, heq⟩ | ⟨-, heq⟩
    · rw [heq]
      exact (h _).hold _ (admits.holdable e he)
    · rw [heq]
      exact h o
  | reconcile plan plans cell =>
    rw [cell]
    exact (h o).foldl_act _
  | advance id phase _ _ _ _ _ _ _ cell =>
    rw [cell]
    exact (h o).advance id phase

/-- Only the record of another operation has changed. -/
theorem BoundInPhase.of_ne (h : l.BoundInPhase) {o : OutPoint} {b : OperationBinding}
    (hb : (l.cell o).binding = some b) {id : OperationId} {op' : PersistedOperation}
    (hne : b.operationId ≠ id)
    (hop : l'.operation = Function.update l.operation id (some op')) :
    ∃ op, l'.operation b.operationId = some op ∧ op.phase = b.phase := by
  rw [hop, Function.update_of_ne hne]
  exact h o b hb

theorem BoundInPhase.move (hputs : ∀ l u, rules.puts l u → u.operationBinding = none)
    (h : l.BoundInPhase) (hmove : Move rules l l') : l'.BoundInPhase := by
  intro o b hb
  have hreleased : ∀ {id op'}, ((l.cell o).release id).binding = some b →
      l'.operation = Function.update l.operation id (some op') →
        ∃ op, l'.operation b.operationId = some op ∧ op.phase = b.phase := by
    intro id op' hb hop
    rw [Cell.binding_release, Option.filter_eq_some_iff, decide_eq_true_eq] at hb
    exact h.of_ne hb.1 hb.2 hop
  cases hmove with
  | quiet cell operation | record _ _ _ cell operation | commit _ _ _ _ cell operation
    | fail _ _ _ _ _ cell operation =>
    rw [cell] at hb
    rw [operation]
    exact h o b hb
  | put u puts cell operation =>
    rw [operation]
    rw [cell, Function.update_apply] at hb
    split_ifs at hb
    · obtain ⟨v, hv, hvb⟩ := Cell.binding_eq_some_iff.mp hb
      cases hv
      rw [hputs l u puts] at hvb
      cases hvb
    · exact h o b hb
  | failSelected id _ _ op' _ _ _ _ cell _ operation =>
    rw [cell] at hb
    exact hreleased hb operation
  | release id op' cell _ operation =>
    rw [cell] at hb
    exact hreleased hb operation
  | hold batch i op' recorded admits selected cell phase' operation =>
    have hheld : b.operationId = batch.selection.operationId → b.phase = .selected →
        ∃ op, l'.operation b.operationId = some op ∧ op.phase = b.phase := by
      intro hid hphase
      exact ⟨op', by rw [operation, hid, Function.update_self], phase'.trans hphase.symm⟩
    rw [cell] at hb
    rcases l.holdCells_cases batch o with ⟨e, he, rfl, heq⟩ | ⟨-, heq⟩
    · rw [heq, Cell.binding_hold _ (admits.holdable e he)] at hb
      cases hb
      exact hheld rfl selected
    · rw [heq] at hb
      by_cases hid : b.operationId = batch.selection.operationId
      · -- the batch was admitted in the phase the operation is on record in
        obtain ⟨op, hop, hphase⟩ := h o b hb
        rw [hid] at hop
        exact hheld hid (by rw [← hphase, (admits.operation op hop).1, selected])
      · exact h.of_ne hb hid operation
  | reconcile plan plans cell operation =>
    rw [operation]
    rw [cell] at hb
    rcases (l.cell o).binding_foldl_act (plan.actionsOn o) with heq | heq
    · rw [heq] at hb
      exact h o b hb
    · rw [heq] at hb
      cases hb
  | advance id phase op op' i running recorded committed forward cell phase' operation =>
    rw [cell, Cell.binding_advance] at hb
    obtain ⟨b', hb', rfl⟩ := Option.map_eq_some_iff.mp hb
    split_ifs with hid
    · exact ⟨op', by rw [operation, hid, Function.update_self], phase'⟩
    · exact h.of_ne hb' hid operation

/-! ## What a racy move keeps -/

theorem RacyMove.attributed (hputs : ∀ l u, rules.puts l u → l.utxo u.outpoint = none ∧
      u.operationBinding = none) (h : l.Attributed) (hmove : RacyMove rules replaces l l') :
    l'.Attributed := by
  have hunbound : ∀ l u, rules.puts l u → u.operationBinding = none := fun l u hu => (hputs l u hu).2
  cases hmove with
  | move hmove =>
    exact ⟨hmove.agrees hputs h.agrees, h.live.move hunbound hmove, h.phase.move hunbound hmove⟩
  | replace selection tick may cell operation intent =>
    refine ⟨fun o => by rw [cell]; exact h.agrees o, fun o id hown => ?_, fun o b hb => ?_⟩
    · rw [cell] at hown
      have hlive := h.live o id hown
      refine ⟨operation ▸ hlive.operation, ?_⟩
      rw [intent, Function.update_apply]
      split_ifs
      · exact ⟨_, rfl, fun hf => (nomatch hf)⟩
      · exact hlive.intent
    · rw [cell] at hb
      rw [operation]
      exact h.phase o b hb

theorem RacyMove.operation_forward (h : RacyMove rules replaces l l') {id : OperationId}
    {op : PersistedOperation} (hop : l.operation id = some op) :
    ∃ op', l'.operation id = some op' ∧ op.phase.MovesTo op'.phase := by
  cases h with
  | move h => exact h.operation_forward hop
  | replace _ _ _ _ operation => exact ⟨op, operation ▸ hop, .inl rfl⟩

/-- An intent stays on record, though not always the same. -/
theorem RacyMove.intent_recorded (h : RacyMove rules replaces l l') {id : OperationId}
    {i : OperationIntent} (hi : l.intent id = some i) : ∃ i', l'.intent id = some i' := by
  cases h with
  | move h =>
    obtain ⟨i', hi', -⟩ := h.intent_forward hi
    exact ⟨i', hi'⟩
  | replace selection tick _ _ _ intent =>
    rw [intent, Function.update_apply]
    split_ifs
    · exact ⟨_, rfl⟩
    · exact ⟨i, hi⟩

theorem RacyMove.spendingBy (hputs : ∀ l u, rules.puts l u → l.utxo u.outpoint = none)
    (h : RacyMove rules replaces l l') {id : OperationId} {o : OutPoint}
    (ho : SpendingBy id (l.cell o)) : SpendingBy id (l'.cell o) := by
  cases h with
  | move h => exact ho.move hputs h
  | replace _ _ _ cell => exact cell ▸ ho

theorem RacyMove.retired (hputs : ∀ l u, rules.puts l u → l.utxo u.outpoint = none)
    (h : RacyMove rules replaces l l') {o : OutPoint} (ho : Retired (l.cell o)) :
    Retired (l'.cell o) := by
  cases h with
  | move h => exact ho.move hputs h
  | replace _ _ _ cell => exact cell ▸ ho

end Ledger

/-! ## Bindings of broadcast operations -/

/-- What is bound in a phase from `Broadcast` on is on its way to the chain. -/
def Cell.BroadcastSpending (c : Cell) : Prop :=
  ∀ u b, c.utxo = some u → u.operationBinding = some b → b.phase.startsSpending = true →
    u.onchainState.isSpending = true

namespace Cell.BroadcastSpending

variable {c : Cell}

theorem release (h : c.BroadcastSpending) (id : OperationId) :
    (c.release id).BroadcastSpending := by
  intro u b hu hb hp
  obtain ⟨v, hv, rfl⟩ := Option.map_eq_some_iff.mp hu
  rw [ManagedUtxo.releaseIfBound_operationBinding, Option.filter_eq_some_iff] at hb
  rw [ManagedUtxo.releaseIfBound_onchainState]
  exact h v b hv hb.1 hp

theorem advance (h : c.BroadcastSpending) (id : OperationId) (phase : OperationPhase) :
    (c.advance id phase).BroadcastSpending := by
  intro u b hu hb hp
  obtain ⟨v, hv, rfl⟩ := Option.map_eq_some_iff.mp hu
  rw [ManagedUtxo.advanceIfBound_operationBinding] at hb
  obtain ⟨b', hb', rfl⟩ := Option.map_eq_some_iff.mp hb
  split_ifs at hp with hid
  · exact ManagedUtxo.isSpending_advanceIfBound_of_bound
      (ManagedUtxo.boundTo_iff.mpr ⟨b', hb', hid⟩) hp
  · exact ManagedUtxo.isSpending_advanceIfBound (h v b' hv hb' hp) id phase

theorem act (h : c.BroadcastSpending) (a : ReconciliationAction) :
    (c.act a).BroadcastSpending := by
  intro u b hu hb hp
  have hbinding : c.binding = some b := by
    have hafter := binding_eq_some_iff.mpr ⟨u, hu, hb⟩
    rcases c.binding_act a with heq | heq
    · rw [← heq]
      exact hafter
    · rw [heq] at hafter
      cases hafter
  obtain ⟨v, hv, hvb⟩ := binding_eq_some_iff.mp hbinding
  obtain ⟨w, hw, hspending⟩ := isSpending_act ⟨v, hv, h v b hv hvb hp⟩ a
  rw [hu] at hw
  cases hw
  exact hspending

theorem foldl_act (h : c.BroadcastSpending) (as : List ReconciliationAction) :
    (as.foldl Cell.act c).BroadcastSpending := by
  induction as generalizing c with
  | nil => exact h
  | cons a as ih => exact ih (h.act a)

theorem hold (h : c.BroadcastSpending) {batch : StateBatch} {purpose : LockPurpose} (tick : ℕ)
    (hselected : batch.phase = .selected) (hc : c.Holdable batch purpose) :
    (c.hold batch tick purpose).BroadcastSpending := by
  cases hc with
  | free u utxo spendable =>
    rw [hold_of_free utxo spendable]
    intro v b hv hb hp
    cases hv
    cases hb
    rw [hselected] at hp
    cases hp
  | held u k utxo binding lock owner =>
    rw [hold_of_held utxo binding lock owner]
    exact h

end Cell.BroadcastSpending

namespace Ledger

variable {rules : Rules} {replaces : Ledger → OperationSelection → Prop} {l l' : Ledger}

theorem Move.broadcastSpending (hputs : ∀ l u, rules.puts l u → u.operationBinding = none)
    (h : ∀ o, (l.cell o).BroadcastSpending) (hmove : Move rules l l') (o : OutPoint) :
    (l'.cell o).BroadcastSpending := by
  cases hmove with
  | quiet cell | record _ _ _ cell | commit _ _ _ _ cell | fail _ _ _ _ _ cell =>
    rw [cell]
    exact h o
  | put u puts cell =>
    rw [cell, Function.update_apply]
    split_ifs
    · intro v b hv hb
      cases hv
      rw [hputs l u puts] at hb
      cases hb
    · exact h o
  | failSelected id _ _ _ _ _ _ _ cell | release id _ cell =>
    rw [cell]
    exact (h o).release id
  | hold batch i op' recorded admits selected cell =>
    rw [cell]
    rcases l.holdCells_cases batch o with ⟨e, he, rfl, heq⟩ | ⟨-, heq⟩
    · rw [heq]
      exact (h _).hold _ selected (admits.holdable e he)
    · rw [heq]
      exact h o
  | reconcile plan plans cell =>
    rw [cell]
    exact (h o).foldl_act _
  | advance id phase _ _ _ _ _ _ _ cell =>
    rw [cell]
    exact (h o).advance id phase

theorem RacyMove.broadcastSpending (hputs : ∀ l u, rules.puts l u → u.operationBinding = none)
    (h : ∀ o, (l.cell o).BroadcastSpending) (hmove : RacyMove rules replaces l l')
    (o : OutPoint) : (l'.cell o).BroadcastSpending := by
  cases hmove with
  | move hmove => exact hmove.broadcastSpending hputs h o
  | replace _ _ _ cell => exact cell ▸ h o

/-- An output bound to an operation that was broadcast is spent by it and by nobody else. -/
theorem Attributed.spendingBy (h : l.Attributed) {o : OutPoint} {u : ManagedUtxo}
    {b : OperationBinding} (hspending : (l.cell o).BroadcastSpending) (hu : l.utxo o = some u)
    (hb : u.operationBinding = some b) (hp : b.phase.startsSpending = true) :
    SpendingBy b.operationId (l.cell o) := by
  refine ⟨⟨u, hu, hspending u b hu hb hp⟩, fun id hown => ?_⟩
  rcases hown with ⟨k, hk, rfl⟩ | ⟨b', hb', rfl⟩
  · exact (h.agrees o).owner_eq hu hb hk
  · rw [Cell.binding_eq_some_iff.mpr ⟨u, hu, hb⟩] at hb'
    cases hb'
    rfl

/-! ## Where only pending intents are replaced -/

theorem RacyMove.intent_forward (h : RacyMove rules replacesPending l l') {id : OperationId}
    {i : OperationIntent} (hi : l.intent id = some i) :
    ∃ i', l'.intent id = some i' ∧ i'.selection = i.selection ∧ i.status.MovesTo i'.status := by
  cases h with
  | move h => exact h.intent_forward hi
  | replace selection tick may _ _ intent =>
    rw [intent, Function.update_apply]
    split_ifs with hid
    · rw [hid] at hi
      obtain ⟨hselection, hpending⟩ := may i hi
      exact ⟨_, rfl, hselection.symm, .inl hpending.symm⟩
    · exact ⟨i, hi, rfl, .inl rfl⟩

theorem RacyMove.owned (hputs : ∀ l u, rules.puts l u → l.utxo u.outpoint = none ∧
      u.operationBinding = none) (h : l.Owned) (hmove : RacyMove rules replacesPending l l') :
    l'.Owned := by
  cases hmove with
  | move hmove => exact h.move hputs hmove
  | replace selection tick may cell operation intent =>
    refine ⟨cell ▸ h.agrees, fun o b hb => ?_⟩
    rw [cell] at hb
    have hbacks := h.backs o b hb
    obtain ⟨i, hi, hstatus, hlisted⟩ := hbacks.intent
    refine ⟨operation ▸ hbacks.operation, hbacks.notRollingBack, ?_⟩
    rw [intent, Function.update_apply]
    split_ifs with hid
    · rw [hid] at hi
      exact ⟨_, rfl, fun hf => (nomatch hf), (may i hi).1 ▸ hlisted⟩
    · exact ⟨i, hi, hstatus, hlisted⟩

theorem RacyMove.advancedCommitted (h : l.AdvancedCommitted)
    (hmove : RacyMove rules replacesPending l l') : l'.AdvancedCommitted := by
  cases hmove with
  | move hmove => exact h.move hmove
  | replace selection tick may cell operation intent =>
    intro id op hop hselected hrolling
    rw [operation] at hop
    obtain ⟨i, hi, hcommitted⟩ := h id op hop hselected hrolling
    refine ⟨i, ?_, hcommitted⟩
    rw [intent, Function.update_of_ne, hi]
    -- a committed intent is not replaced
    rintro rfl
    rw [(may i hi).2] at hcommitted
    cases hcommitted

/-! ## Runs -/

theorem RacyRun.invariant {I : Ledger → Prop} (hmove : ∀ l l', I l → RacyMove rules replaces l l' → I l')
    (h : RacyRun rules replaces l l') (hl : I l) : I l' := by
  induction h with
  | refl => exact hl
  | tail _ hm ih => exact hmove _ _ ih hm

theorem RacyRun.operation_forward (h : RacyRun rules replaces l l') {id : OperationId}
    {op : PersistedOperation} (hop : l.operation id = some op) :
    ∃ op', l'.operation id = some op' ∧ op.phase.MovesTo op'.phase := by
  induction h with
  | refl => exact ⟨op, hop, .inl rfl⟩
  | tail _ hm ih =>
    obtain ⟨op₁, hop₁, h₁⟩ := ih
    obtain ⟨op₂, hop₂, h₂⟩ := hm.operation_forward hop₁
    exact ⟨op₂, hop₂, h₁.trans h₂⟩

theorem RacyRun.intent_forward (h : RacyRun rules replacesPending l l') {id : OperationId}
    {i : OperationIntent} (hi : l.intent id = some i) :
    ∃ i', l'.intent id = some i' ∧ i'.selection = i.selection ∧ i.status.MovesTo i'.status := by
  induction h with
  | refl => exact ⟨i, hi, rfl, .inl rfl⟩
  | tail _ hm ih =>
    obtain ⟨i₁, hi₁, hsel₁, h₁⟩ := ih
    obtain ⟨i₂, hi₂, hsel₂, h₂⟩ := hm.intent_forward hi₁
    exact ⟨i₂, hi₂, hsel₂.trans hsel₁, h₁.trans h₂⟩

end Ledger

end Txoscope
