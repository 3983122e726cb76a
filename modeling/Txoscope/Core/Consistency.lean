import Txoscope.Core.Planning

/-!
# Availability tells the truth

An output is marked `Reserved` only while it is bound and `Selectable` only while it may be
selected. Reserving, releasing, advancing and reconciling each rewrite the availability on their
own, and each restores this from any output that satisfies it.
-/

namespace Txoscope

/-- What `Reserved` and `Selectable` promise. -/
structure ManagedUtxo.Consistent (u : ManagedUtxo) : Prop where
  reserved : u.availability = .reserved → u.operationBinding.isSome = true
  selectable : u.availability = .selectable → u.isPolicySpendable = true

namespace ManagedUtxo

/-- Neither `Reserved` nor `Selectable` promises nothing. -/
theorem Consistent.of_other {u : ManagedUtxo} (hr : u.availability ≠ .reserved)
    (hs : u.availability ≠ .selectable) : u.Consistent :=
  ⟨fun h => (hr h).elim, fun h => (hs h).elim⟩

theorem consistent_reserve (u : ManagedUtxo) (id : OperationId) (p : OperationPhase) :
    (u.reserve id p).Consistent := ⟨fun _ => rfl, fun h => (nomatch h)⟩

theorem consistent_discoverFromObserved (o : OutPoint) (accountId : AccountId)
    (scopeId : WalletScopeId) (valueSats : ℕ) (confirmation : ObservedConfirmation) :
    (discoverFromObserved o accountId scopeId valueSats confirmation).Consistent := by
  cases confirmation with
  | unknown | mempool => exact .of_other (fun h => (nomatch h)) (fun h => (nomatch h))
  | confirmed => exact ⟨fun h => (nomatch h), fun _ => rfl⟩

/-- A binding keeps an output from being selectable. -/
theorem Consistent.not_selectable {u : ManagedUtxo} (h : u.Consistent)
    (hb : u.operationBinding.isSome = true) : u.availability ≠ .selectable := by
  intro hs
  have hnone := (isPolicySpendable_iff.mp (h.selectable hs)).2.2.1
  rw [hnone] at hb
  cases hb

theorem consistent_releaseBinding (u : ManagedUtxo) : u.releaseBinding.Consistent := by
  unfold ManagedUtxo.releaseBinding releasedAvailability
  split_ifs with hspending hrecovering hconfirmed
  · exact .of_other (fun h => (nomatch h)) (fun h => (nomatch h))
  · refine ⟨fun h => (nomatch h), fun _ => ?_⟩
    rw [isPolicySpendable_iff]
    exact ⟨rfl, hconfirmed.1, rfl, hconfirmed.2⟩
  · exact .of_other (fun h => (nomatch h)) (fun h => (nomatch h))
  · rw [not_not] at hrecovering
    refine .of_other ?_ ?_ <;> simp [hrecovering]

theorem Consistent.releaseIfBound {u : ManagedUtxo} (h : u.Consistent) (id : OperationId) :
    (u.releaseIfBound id).Consistent := by
  unfold ManagedUtxo.releaseIfBound
  split_ifs
  · exact u.consistent_releaseBinding
  · exact h

theorem Consistent.advanceIfBound {u : ManagedUtxo} (h : u.Consistent) (id : OperationId)
    (p : OperationPhase) : (u.advanceIfBound id p).Consistent := by
  unfold ManagedUtxo.advanceIfBound
  by_cases hb : u.boundTo id = true
  · rw [if_pos hb]
    obtain ⟨b, hub, -⟩ := boundTo_iff.mp hb
    have hsome : u.operationBinding.isSome = true := by rw [hub]; rfl
    unfold advanceBinding
    rw [hub]
    by_cases hp : p.startsSpending = true
    · simp only [hp, if_true]
      exact .of_other (fun h => (nomatch h)) (fun h => (nomatch h))
    · simp only [hp]
      exact ⟨fun _ => rfl, fun hs => (h.not_selectable hsome hs).elim⟩
  · rw [if_neg hb]
    exact h

theorem consistent_seenSpent (u : ManagedUtxo) (txid : String) (t : ℕ) :
    (u.seenSpent txid t).Consistent :=
  .of_other (fun h => (nomatch h)) (fun h => (nomatch h))

theorem consistent_seenMissing (u : ManagedUtxo) (message : String) (t : ℕ) :
    (u.seenMissing message t).Consistent :=
  .of_other (fun h => (nomatch h)) (fun h => (nomatch h))

/-- An unspent observation restores an availability that fits what it records. -/
theorem Consistent.seenUnspent {u : ManagedUtxo} (h : u.Consistent) (observed : ObservedUtxo)
    (t : ℕ) : (u.seenUnspent observed t).Consistent := by
  unfold ManagedUtxo.seenUnspent seenAvailability
  simp only
  by_cases hf : u.onchainState = .spendingInFlight
  · simp only [hf, if_true]
    exact .of_other (fun h => (nomatch h)) (fun h => (nomatch h))
  by_cases hb : u.operationBinding.isSome = true
  · -- a bound output goes back to `Reserved`
    simp only [hf, hb, if_true, if_false]
    have hsel := h.not_selectable hb
    split_ifs
    · exact ⟨fun _ => hb, fun h => (nomatch h)⟩
    · exact ⟨fun _ => hb, fun hs => (hsel hs).elim⟩
  have hnot : u.availability ≠ .reserved := fun hr => hb (h.reserved hr)
  cases hm : ReconciliationPlanner.observedMismatchMessage u observed with
  | some message =>
    simp only [hf, hb, Option.isSome_some, if_true, if_false]
    exact .of_other (fun h => (nomatch h)) (fun h => (nomatch h))
  | none =>
    simp only [hf, hb, Option.isSome_none, Bool.false_eq_true, if_false, Option.map_none]
    split_ifs with hrestore
    · cases hc : observed.confirmation with
      | unknown | mempool =>
        exact .of_other (fun h => (nomatch h)) (fun h => (nomatch h))
      | confirmed =>
        refine ⟨fun h => (nomatch h), fun _ => ?_⟩
        rw [isPolicySpendable_iff]
        exact ⟨rfl, rfl, by simpa using hb, rfl⟩
    · exact .of_other hnot fun hs => hrestore (.inr (.inr hs))

end ManagedUtxo

/-! ## Cells and ledgers -/

/-- The managed output of the cell, if there is one, is consistent. -/
def Cell.Consistent (c : Cell) : Prop := ∀ u, c.utxo = some u → u.Consistent

namespace Cell

variable {c : Cell}

theorem Consistent.map (h : c.Consistent) {f : ManagedUtxo → ManagedUtxo}
    (hf : ∀ u, u.Consistent → (f u).Consistent) {lock : Option OperationLock} :
    (⟨c.utxo.map f, lock⟩ : Cell).Consistent := by
  intro u hu
  obtain ⟨v, hv, rfl⟩ := Option.map_eq_some_iff.mp hu
  exact hf v (h v hv)

theorem Consistent.observe (h : c.Consistent) (t : ℕ) (observed : ObservedUtxo) :
    (c.observe t observed).Consistent := by
  unfold Cell.observe
  cases hc : c.utxo with
  | none =>
    simp only
    split_ifs
    · intro u hu
      cases hu
      exact ManagedUtxo.consistent_discoverFromObserved _ _ _ _ _
    · exact h
  | some v =>
    simp only
    have hv : v.Consistent := h v hc
    split_ifs
    · exact h
    · intro u hu
      cases hs : observed.spendStatus <;> simp only [hs] at hu
      · exact h u hu
      · cases hu
        exact hv.seenUnspent observed t
      · cases hu
        exact v.consistent_seenSpent _ t
      · cases hu
        exact v.consistent_seenMissing _ t

theorem Consistent.leaveOut (h : c.Consistent) (snapshot : ObservationSnapshot) :
    (c.leaveOut snapshot).Consistent := by
  unfold Cell.leaveOut overlook
  cases hc : c.utxo with
  | none => simpa using h
  | some v =>
    simp only
    split_ifs
    · intro u hu
      cases hu
      exact v.consistent_seenMissing _ _
    · exact h
    · exact h

theorem Consistent.reconcile (h : c.Consistent) (snapshot : ObservationSnapshot) (o : OutPoint) :
    (c.reconcile snapshot o).Consistent := by
  unfold Cell.reconcile
  cases snapshot.about o with
  | nil => exact h.leaveOut snapshot
  | cons observed _ => exact h.observe _ observed

end Cell

namespace Ledger

variable {rules : Rules} {l l' : Ledger}

/-- Every managed output is consistent. -/
def Consistent (l : Ledger) : Prop := ∀ o, (l.cell o).Consistent

theorem Consistent.empty : Ledger.empty.Consistent := fun _ _ h => (nomatch h)

/-- Every move keeps outputs consistent, if the plans do. -/
theorem Consistent.move_of_plans (hputs : ∀ l u, rules.puts l u → u.Consistent)
    (hplans : ∀ plan, rules.plans l plan →
      ∀ o, ((plan.actionsOn o).foldl Cell.act (l.cell o)).Consistent)
    (h : l.Consistent) (hmove : Move rules l l') : l'.Consistent := by
  intro o
  cases hmove with
  | quiet cell | record _ _ _ cell | commit _ _ _ _ cell | fail _ _ _ _ _ cell =>
    rw [cell]
    exact h o
  | put u puts cell =>
    rw [cell, Function.update_apply]
    split_ifs
    · intro v hv
      cases hv
      exact hputs l u puts
    · exact h o
  | failSelected id _ _ _ _ _ _ _ cell | release id _ cell =>
    rw [cell]
    exact (h o).map fun u hu => hu.releaseIfBound id
  | hold batch i op' _ admits _ cell =>
    rw [cell]
    rcases l.holdCells_cases batch o with ⟨e, he, rfl, heq⟩ | ⟨-, heq⟩
    · rw [heq]
      cases admits.holdable e he with
      | free v utxo spendable =>
        rw [Cell.hold_of_free utxo spendable]
        intro u hu
        cases hu
        exact v.consistent_reserve _ _
      | held v k utxo binding lock owner =>
        rw [Cell.hold_of_held utxo binding lock owner]
        exact h _
    · rw [heq]
      exact h o
  | reconcile plan plans cell =>
    rw [cell]
    exact hplans plan plans o
  | advance id phase _ _ _ _ _ _ _ cell =>
    rw [cell]
    exact (h o).map fun u hu => hu.advanceIfBound id phase

/-- A plan for a distinct snapshot keeps the outputs it was made from consistent. -/
theorem Consistent.planFor (hk : l.WellKeyed) (h : l.Consistent) {utxos : List ManagedUtxo}
    {snapshot : ObservationSnapshot} (hdistinct : snapshot.Distinct) (hnd : utxos.Nodup)
    (hmem : ∀ u, u ∈ utxos ↔ ∃ o, l.utxo o = some u) (o : OutPoint) :
    (((ReconciliationPlanner.planFor utxos snapshot).actionsOn o).foldl Cell.act
      (l.cell o)).Consistent := by
  have hcells := congrArg Ledger.cell (applyReconciliation_planFor hk hnd hmem hdistinct)
  have hcell : ((ReconciliationPlanner.planFor utxos snapshot).actionsOn o).foldl Cell.act
      (l.cell o) = (l.cell o).reconcile snapshot o := congrFun hcells o
  rw [hcell]
  exact (h o).reconcile snapshot o

/-- Every move keeps outputs consistent, if plans are made for distinct snapshots from the outputs
they are applied to. -/
theorem Consistent.move (hputs : ∀ l u, rules.puts l u → u.Consistent)
    (hplans : ∀ l plan, rules.plans l plan → ∃ utxos snapshot, snapshot.Distinct ∧
      utxos.Nodup ∧ (∀ u, u ∈ utxos ↔ ∃ o, l.utxo o = some u) ∧
        plan = ReconciliationPlanner.planFor utxos snapshot)
    (hk : l.WellKeyed) (h : l.Consistent) (hmove : Move rules l l') : l'.Consistent := by
  refine h.move_of_plans hputs (fun plan hplan o => ?_) hmove
  obtain ⟨utxos, snapshot, hdistinct, hnd, hmem, rfl⟩ := hplans l plan hplan
  exact h.planFor hk hdistinct hnd hmem o

end Ledger

end Txoscope
