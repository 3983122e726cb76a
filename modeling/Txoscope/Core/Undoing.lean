import Txoscope.Core.Racing

/-!
# Outputs that are not observed

As long as no plan is about it, a spendable output stays as it is, or it is held by an operation
whose release gives it back as it was, or it is on its way to the chain (`Undoable`).
-/

namespace Txoscope

namespace ManagedUtxo

variable {u : ManagedUtxo}

/-- A release takes back all that a reservation has changed. -/
theorem releaseBinding_reserve (h : u.isPolicySpendable = true) (id : OperationId)
    (phase : OperationPhase) : (u.reserve id phase).releaseBinding = u := by
  obtain ⟨havailable, hconfirmed, hunbound, hconflict⟩ := isPolicySpendable_iff.mp h
  have hreleased : (u.reserve id phase).releasedAvailability = u.availability := by
    unfold releasedAvailability reserve
    simp [havailable, hconfirmed, hconflict, OnchainState.isSpending]
  unfold releaseBinding
  rw [hreleased]
  unfold reserve
  rw [← hunbound]

theorem not_boundTo_reserve {id id' : OperationId} (h : id ≠ id') (phase : OperationPhase) :
    (u.reserve id phase).boundTo id' = false :=
  not_boundTo_of_binding (b := ⟨id, phase⟩) rfl h

/-- Before it starts spending, an operation that advances reserves as it did. -/
theorem advanceBinding_reserve {phase phase' : OperationPhase} (id : OperationId)
    (h : phase'.startsSpending = false) :
    (u.reserve id phase).advanceBinding phase' = u.reserve id phase' := by
  unfold advanceBinding reserve
  simp [h]

theorem advanceBinding_inFlight {phase : OperationPhase} (hbound : u.operationBinding.isSome = true)
    (h : phase.startsSpending = true) (hspent : u.onchainState ≠ .spent) :
    (u.advanceBinding phase).onchainState = .spendingInFlight := by
  obtain ⟨b, hb⟩ := Option.isSome_iff_exists.mp hbound
  unfold advanceBinding
  simp [hb, h, hspent]

theorem advanceIfBound_inFlight (h : u.onchainState = .spendingInFlight) (id : OperationId)
    (phase : OperationPhase) : (u.advanceIfBound id phase).onchainState = .spendingInFlight := by
  have hspent : u.onchainState ≠ .spent := by
    rw [h]
    exact fun heq => (nomatch heq)
  unfold advanceIfBound
  split_ifs with hbound
  · obtain ⟨b, hb, -⟩ := boundTo_iff.mp hbound
    cases hphase : phase.startsSpending with
    | true => exact advanceBinding_inFlight (Option.isSome_iff_exists.mpr ⟨b, hb⟩) hphase hspent
    | false =>
      unfold advanceBinding
      simp [hb, hphase, h]
  · exact h

end ManagedUtxo

namespace Cell

/-- The output is `u`, or `u` with the reservation of the operation that locks it, or on its way to
the chain. -/
inductive Undoable (u : ManagedUtxo) (c : Cell) : Prop where
  | free (utxo : c.utxo = some u) (lock : c.lock = none)
  | held (id : OperationId) (phase : OperationPhase) (k : OperationLock)
      (utxo : c.utxo = some (u.reserve id phase)) (lock : c.lock = some k)
      (owner : k.operationId = id) (unsent : phase.startsSpending = false)
  | inFlight (v : ManagedUtxo) (utxo : c.utxo = some v)
      (spending : v.onchainState = .spendingInFlight)

variable {u : ManagedUtxo} {c : Cell}

/-- A release frees what the operation holds, and leaves `u`. -/
theorem Undoable.release (hu : u.isPolicySpendable = true) (h : Undoable u c) (id : OperationId) :
    Undoable u (c.release id) := by
  have hunbound := (ManagedUtxo.isPolicySpendable_iff.mp hu).2.2.1
  cases h with
  | free utxo lock =>
    refine .free ?_ (congrArg (Option.filter _) lock)
    exact (congrArg (Option.map _) utxo).trans (congrArg some
      (ManagedUtxo.releaseIfBound_of_free (ManagedUtxo.not_boundTo_of_none hunbound)))
  | held id' phase k utxo lock owner unsent =>
    have hutxo : (c.release id).utxo = some ((u.reserve id' phase).releaseIfBound id) :=
      congrArg (Option.map _) utxo
    have hlock : (c.release id).lock = (some k).filter (·.operationId ≠ id) :=
      congrArg (Option.filter _) lock
    by_cases hid : id' = id
    · subst hid
      refine .free ?_ ?_
      · rw [hutxo]
        unfold ManagedUtxo.releaseIfBound
        rw [if_pos (ManagedUtxo.boundTo_of_binding (b := ⟨id', phase⟩) rfl),
          ManagedUtxo.releaseBinding_reserve hu]
      · rw [hlock]
        simp [owner]
    · refine .held id' phase k ?_ ?_ owner unsent
      · rw [hutxo,
          ManagedUtxo.releaseIfBound_of_free (ManagedUtxo.not_boundTo_reserve hid phase)]
      · rw [hlock]
        simp [owner, hid]
  | inFlight v utxo spending =>
    exact .inFlight _ (congrArg (Option.map _) utxo)
      ((v.releaseIfBound_onchainState id).trans spending)

/-- An operation that advances keeps what it holds, until it is sent. -/
theorem Undoable.advance (hu : u.isPolicySpendable = true) (h : Undoable u c) (id : OperationId)
    (phase : OperationPhase) : Undoable u (c.advance id phase) := by
  obtain ⟨-, hconfirmed, hunbound, -⟩ := ManagedUtxo.isPolicySpendable_iff.mp hu
  cases h with
  | free utxo lock =>
    refine .free ?_ (congrArg (Option.map _) lock)
    exact (congrArg (Option.map _) utxo).trans (congrArg some
      (ManagedUtxo.advanceIfBound_of_free (ManagedUtxo.not_boundTo_of_none hunbound) phase))
  | held id' phase' k utxo lock owner unsent =>
    have hutxo : (c.advance id phase).utxo =
        some ((u.reserve id' phase').advanceIfBound id phase) := congrArg (Option.map _) utxo
    obtain ⟨k', hlock, howner⟩ :
        ∃ k', (c.advance id phase).lock = some k' ∧ k'.operationId = id' := by
      refine ⟨_, congrArg (Option.map _) lock, ?_⟩
      dsimp only
      split_ifs <;> exact owner
    by_cases hid : id' = id
    · subst hid
      have hbound : (u.reserve id' phase').advanceIfBound id' phase =
          (u.reserve id' phase').advanceBinding phase :=
        if_pos (ManagedUtxo.boundTo_of_binding (b := ⟨id', phase'⟩) rfl)
      rw [hbound] at hutxo
      cases hphase : phase.startsSpending with
      | false =>
        rw [ManagedUtxo.advanceBinding_reserve id' hphase] at hutxo
        exact .held id' phase k' hutxo hlock howner hphase
      | true =>
        refine .inFlight _ hutxo (ManagedUtxo.advanceBinding_inFlight rfl hphase ?_)
        change u.onchainState ≠ .spent
        rw [hconfirmed]
        exact fun heq => (nomatch heq)
    · refine .held id' phase' k' ?_ hlock howner unsent
      rw [hutxo, ManagedUtxo.advanceIfBound_of_free (ManagedUtxo.not_boundTo_reserve hid phase')]
  | inFlight v utxo spending =>
    exact .inFlight _ (congrArg (Option.map _) utxo) (v.advanceIfBound_inFlight spending id phase)

/-- A batch in phase `Selected` holds the output as it is, or leaves it to its owner. -/
theorem Undoable.hold {batch : StateBatch} {purpose : LockPurpose} (h : Undoable u c)
    (hselected : batch.phase = .selected) (hholdable : c.Holdable batch purpose) (tick : ℕ) :
    Undoable u (c.hold batch tick purpose) := by
  cases hholdable with
  | held v k utxo binding lock owner =>
    rw [hold_of_held utxo binding lock owner]
    exact h
  | free v utxo spendable lock =>
    rw [hold_of_free utxo spendable]
    cases h with
    | free hutxo =>
      rw [hutxo] at utxo
      cases utxo
      exact .held _ _ _ rfl rfl rfl (by rw [hselected]; rfl)
    | held id phase k hutxo =>
      rw [hutxo] at utxo
      cases utxo
      have hnone := (ManagedUtxo.isPolicySpendable_iff.mp spendable).2.2.1
      cases hnone
    | inFlight w hutxo spending =>
      rw [hutxo] at utxo
      cases utxo
      rw [(ManagedUtxo.isPolicySpendable_iff.mp spendable).2.1] at spending
      cases spending

end Cell

namespace Ledger

open Cell

variable {rules : Rules} {replaces : Ledger → OperationSelection → Prop} {l l' : Ledger}
  {u : ManagedUtxo} {o : OutPoint}

theorem undoable_move (hputs : ∀ l u, rules.puts l u → l.utxo u.outpoint = none)
    (hplans : ∀ l plan, rules.plans l plan → plan.actionsOn o = [])
    (hu : u.isPolicySpendable = true) (h : Undoable u (l.cell o)) (hmove : Move rules l l') :
    Undoable u (l'.cell o) := by
  cases hmove with
  | quiet cell | record _ _ _ cell | commit _ _ _ _ cell | fail _ _ _ _ _ cell =>
    rw [cell]
    exact h
  | put v puts cell =>
    rw [cell, Function.update_of_ne]
    · exact h
    · -- the output is managed already
      rintro rfl
      have hnone : (l.cell v.outpoint).utxo = none := hputs l v puts
      cases h with
      | free utxo => exact nomatch hnone.symm.trans utxo
      | held _ _ _ utxo => exact nomatch hnone.symm.trans utxo
      | inFlight _ utxo => exact nomatch hnone.symm.trans utxo
  | failSelected id _ _ _ _ _ _ _ cell | release id _ cell =>
    rw [cell]
    exact h.release hu id
  | hold batch i op' recorded admits selected cell =>
    rw [cell]
    rcases l.holdCells_cases batch o with ⟨e, he, rfl, heq⟩ | ⟨-, heq⟩
    · rw [heq]
      exact h.hold selected (admits.holdable e he) l.tick
    · rw [heq]
      exact h
  | reconcile plan plans cell =>
    rw [cell]
    dsimp only
    rw [hplans l plan plans]
    exact h
  | advance id phase _ _ _ _ _ _ _ cell =>
    rw [cell]
    exact h.advance hu id phase

/-- As long as no plan is about it, a spendable output stays undoable. -/
theorem undoable_racyMove (hputs : ∀ l u, rules.puts l u → l.utxo u.outpoint = none)
    (hplans : ∀ l plan, rules.plans l plan → plan.actionsOn o = [])
    (hu : u.isPolicySpendable = true) (h : Undoable u (l.cell o))
    (hmove : RacyMove rules replaces l l') : Undoable u (l'.cell o) := by
  cases hmove with
  | move hmove => exact undoable_move hputs hplans hu h hmove
  | replace _ _ _ cell => exact cell ▸ h

end Ledger

end Txoscope
