import Txoscope.Core.Planning

/-!
# Outputs that can be put on offer again

An unspent observation heals three availabilities only. An output that nobody owns and that is not
being spent never has another one (`ManagedUtxo.Restorable`): this holds initially and after every
move of a ledger, also where a snapshot mentions an outpoint more than once.
-/

namespace Txoscope

namespace ManagedUtxo

/-- Unless it is owned or being spent, the output is in a state that an observation heals. -/
def Restorable (u : ManagedUtxo) : Prop :=
  u.operationBinding = none → u.onchainState.isSpending = false →
    u.availability = .recovering ∨ u.availability = .blockedByPolicy ∨ u.availability = .selectable

theorem Restorable.of_bound {u : ManagedUtxo} (h : u.operationBinding.isSome = true) :
    u.Restorable := by
  intro hnone
  rw [hnone] at h
  cases h

theorem Restorable.of_spending {u : ManagedUtxo} (h : u.onchainState.isSpending = true) :
    u.Restorable := by
  intro _ hspending
  rw [h] at hspending
  cases hspending

theorem restorable_discoverFromObserved (o : OutPoint) (accountId : AccountId)
    (scopeId : WalletScopeId) (valueSats : ℕ) (confirmation : ObservedConfirmation) :
    (discoverFromObserved o accountId scopeId valueSats confirmation).Restorable := by
  intro _ _
  unfold discoverFromObserved ObservedConfirmation.availability
  cases confirmation <;> simp

theorem restorable_releaseBinding (u : ManagedUtxo) : u.releaseBinding.Restorable := by
  intro _ hspending
  have hspending : u.onchainState.isSpending = false := hspending
  show u.releasedAvailability = _ ∨ u.releasedAvailability = _ ∨ u.releasedAvailability = _
  unfold releasedAvailability
  rw [hspending]
  by_cases hr : u.availability = .recovering
  · simp [hr]
  · by_cases hc : u.onchainState = .confirmed ∧ u.observationConflict = none
    · simp [hr, hc]
    · simp [hr, hc]

theorem Restorable.releaseIfBound {u : ManagedUtxo} (h : u.Restorable) (id : OperationId) :
    (u.releaseIfBound id).Restorable := by
  unfold ManagedUtxo.releaseIfBound
  split_ifs
  · exact u.restorable_releaseBinding
  · exact h

theorem Restorable.advanceIfBound {u : ManagedUtxo} (h : u.Restorable) (id : OperationId)
    (p : OperationPhase) : (u.advanceIfBound id p).Restorable := by
  unfold ManagedUtxo.advanceIfBound
  split_ifs with hbound
  · obtain ⟨b, hb, -⟩ := boundTo_iff.mp hbound
    refine .of_bound ?_
    rw [advanceBinding_operationBinding, hb]
    rfl
  · exact h

/-! ## Planned actions -/

/-- `v` came out of `u` by actions of one plan: a spend is not undone, and only a spend ends the
ownership. -/
structure Precedes (u v : ManagedUtxo) : Prop where
  spending : u.onchainState.isSpending = true → v.onchainState.isSpending = true
  bound : u.operationBinding.isSome = true →
    v.operationBinding.isSome = true ∨ v.onchainState.isSpending = true

theorem Precedes.refl (u : ManagedUtxo) : u.Precedes u := ⟨id, .inl⟩

/-- What the planner may ask for an output that is `u`. -/
inductive Asks (u : ManagedUtxo) : ReconciliationAction → Prop where
  | reportConflict (o : OutPoint) (message : String) (recordedAt : ℕ) :
    Asks u (.reportConflict o message recordedAt)
  | clearConflict (o : OutPoint) : Asks u (.clearConflict o)
  | markSpent (o : OutPoint) (spendingTxid : String) : Asks u (.markSpent o spendingTxid)
  | markMissing (o : OutPoint) : Asks u (.markMissing o)
  | updateOnchainState (o : OutPoint) (newState : OnchainState)
      (h : newState.isSpending = false) : Asks u (.updateOnchainState o newState)
  | updateAvailability (o : OutPoint) (availability : Availability)
      (h : u.onchainState.isSpending = true ∨ u.operationBinding.isSome = true ∨
        availability = .blockedByPolicy ∨ availability = .selectable) :
    Asks u (.updateAvailability o availability)

/-- An action that is asked for keeps the output restorable. -/
theorem Asks.act {u v : ManagedUtxo} {k : Option OperationLock} {a : ReconciliationAction}
    (h : u.Asks a) (hp : u.Precedes v) (hv : v.Restorable) :
    ∃ v' k', Cell.act ⟨some v, k⟩ a = ⟨some v', k'⟩ ∧ u.Precedes v' ∧ v'.Restorable := by
  cases h with
  | reportConflict o message recordedAt => exact ⟨_, _, rfl, ⟨hp.spending, hp.bound⟩, hv⟩
  | clearConflict o => exact ⟨_, _, rfl, ⟨hp.spending, hp.bound⟩, hv⟩
  | markSpent o spendingTxid =>
    exact ⟨_, _, rfl, ⟨fun _ => rfl, fun _ => .inr rfl⟩, .of_spending rfl⟩
  | markMissing o => exact ⟨_, _, rfl, ⟨hp.spending, hp.bound⟩, fun _ _ => .inl rfl⟩
  | updateOnchainState o newState h =>
    by_cases hs : v.onchainState.isSpending = true
    · refine ⟨v, k, ?_, hp, hv⟩
      simp [Cell.act, hs]
    · rw [Bool.not_eq_true] at hs
      refine ⟨{ v with onchainState := newState }, k, ?_, ⟨fun hu => ?_, fun hu => ?_⟩, ?_⟩
      · simp [Cell.act, hs]
      · rw [hp.spending hu] at hs
        cases hs
      · exact (hp.bound hu).imp_right fun hv => by
          rw [hs] at hv
          cases hv
      · exact fun hb _ => hv hb hs
  | updateAvailability o availability h =>
    refine ⟨{ v with availability }, k, rfl, ⟨hp.spending, hp.bound⟩, ?_⟩
    rcases h with hu | hu | h
    · exact .of_spending (hp.spending hu)
    · rcases hp.bound hu with hb | hs
      · exact .of_bound hb
      · exact .of_spending hs
    · exact fun _ _ => .inr h

/-- The actions of a plan, one after the other. -/
theorem Restorable.foldl_act {u v : ManagedUtxo} {k : Option OperationLock}
    {actions : List ReconciliationAction} (h : ∀ a ∈ actions, u.Asks a) (hp : u.Precedes v)
    (hv : v.Restorable) :
    ∃ v' k', actions.foldl Cell.act ⟨some v, k⟩ = ⟨some v', k'⟩ ∧ v'.Restorable := by
  induction actions generalizing v k with
  | nil => exact ⟨v, k, rfl, hv⟩
  | cons a actions ih =>
    rw [List.forall_mem_cons] at h
    obtain ⟨v', k', hact, hp', hv'⟩ := h.1.act hp hv
    rw [List.foldl_cons, hact]
    exact ih h.2 hp' hv'

end ManagedUtxo

namespace ReconciliationPlanner

variable {u : ManagedUtxo} {a : ReconciliationAction}

theorem asks_of_restoredUnspentAvailability {observed : ObservedUtxo} {mismatch : Bool}
    {availability : Availability}
    (h : restoredUnspentAvailability u observed mismatch = some availability) :
    u.Asks (.updateAvailability u.outpoint availability) := by
  refine .updateAvailability _ _ ?_
  have hconfirmation : observed.confirmation.availability = .blockedByPolicy ∨
      observed.confirmation.availability = .selectable := by
    cases observed.confirmation <;> simp [ObservedConfirmation.availability]
  unfold restoredUnspentAvailability at h
  by_cases hf : u.onchainState = .spendingInFlight
  · exact .inl (by rw [hf]; rfl)
  · by_cases hb : u.operationBinding.isSome = true
    · exact .inr (.inl hb)
    · refine .inr (.inr ?_)
      dsimp only at h
      split_ifs at h
      · exact .inl (Option.some.inj h).symm
      · rwa [← Option.some.inj h]

/-- A conditional block of actions that may be asked for. -/
theorem asks_ite {p : Prop} [Decidable p] {actions : List ReconciliationAction}
    (h : p → ∀ a ∈ actions, u.Asks a) : ∀ a ∈ (if p then actions else []), u.Asks a := by
  split_ifs with hp
  · exact h hp
  · exact fun _ hmem => (List.not_mem_nil hmem).elim

theorem asks_singleton (h : u.Asks a) : ∀ b ∈ [a], u.Asks b := List.forall_mem_singleton.mpr h

theorem planManaged_asks (timestamp : ℕ) (u : ManagedUtxo) (observed : ObservedUtxo) :
    ∀ a ∈ planManaged timestamp u observed, u.Asks a := by
  unfold planManaged
  cases observed.spendStatus with
  | unknown => exact fun _ hmem => (List.not_mem_nil hmem).elim
  | spent spendingTxid =>
    exact asks_ite fun _ => List.forall_mem_append.mpr
      ⟨asks_ite fun _ => asks_singleton (.reportConflict _ _ _), asks_singleton (.markSpent _ _)⟩
  | missing =>
    exact asks_ite fun _ => List.forall_mem_append.mpr
      ⟨asks_ite fun _ => asks_singleton (.reportConflict _ _ _), asks_singleton (.markMissing _)⟩
  | unspent =>
    dsimp only
    by_cases hu : u.onchainState = .spent
    · rw [if_pos hu]
      exact fun _ hmem => (List.not_mem_nil hmem).elim
    · rw [if_neg hu]
      simp only [List.forall_mem_append, List.forall_mem_map, Option.mem_toList]
      refine ⟨⟨⟨fun _ _ => .reportConflict _ _ _, fun _ h => ?_⟩, ?_⟩, ?_⟩
      · exact asks_of_restoredUnspentAvailability h
      · exact asks_ite fun _ => asks_singleton (.clearConflict _)
      · refine asks_ite fun _ => asks_singleton (.updateOnchainState _ _ ?_)
        cases observed.confirmation <;> rfl

theorem planUnmentioned_asks (timestamp : ℕ) (u : ManagedUtxo) :
    ∀ a ∈ planUnmentioned timestamp u, u.Asks a :=
  asks_ite fun _ => List.forall_mem_append.mpr
    ⟨asks_ite fun _ => asks_singleton (.reportConflict _ _ _), asks_singleton (.markMissing _)⟩

end ReconciliationPlanner

/-! ## Cells and ledgers -/

/-- The managed output of the cell, if there is one, is restorable. -/
def Cell.Restorable (c : Cell) : Prop := ∀ u, c.utxo = some u → u.Restorable

namespace Cell

variable {c : Cell}

theorem Restorable.map (h : c.Restorable) {f : ManagedUtxo → ManagedUtxo}
    (hf : ∀ u, u.Restorable → (f u).Restorable) {lock : Option OperationLock} :
    (⟨c.utxo.map f, lock⟩ : Cell).Restorable := by
  intro u hu
  obtain ⟨v, hv, rfl⟩ := Option.map_eq_some_iff.mp hu
  exact hf v (h v hv)

/-- What the observations of an outpoint that was not managed make of it. -/
theorem Restorable.foldl_planObserved_none (h : c.Restorable) (timestamp : ℕ)
    (observations : List ObservedUtxo) :
    ((observations.flatMap (ReconciliationPlanner.planObserved timestamp none)).foldl Cell.act
      c).Restorable := by
  induction observations generalizing c with
  | nil => exact h
  | cons observed observations ih =>
    rw [List.flatMap_cons, List.foldl_append]
    refine ih ?_
    unfold ReconciliationPlanner.planObserved
    cases observed.spendStatus with
    | unknown | spent | missing => exact h
    | unspent =>
      intro u hu
      unfold Cell.act at hu
      simp only [List.foldl_cons, List.foldl_nil] at hu
      split_ifs at hu
      · exact h u hu
      · obtain rfl := Option.some.inj hu
        exact ManagedUtxo.restorable_discoverFromObserved _ _ _ _ _

end Cell

namespace Ledger

variable {rules : Rules} {l l' : Ledger}

/-- Every managed output is restorable. -/
def Restorable (l : Ledger) : Prop := ∀ o, (l.cell o).Restorable

theorem Restorable.empty : Ledger.empty.Restorable := fun _ _ h => (nomatch h)

/-- A plan made from the outputs it is applied to keeps outputs restorable. -/
theorem Restorable.reconcile (hk : l.WellKeyed) (h : l.Restorable) {utxos : List ManagedUtxo}
    (hnd : utxos.Nodup) (hmem : ∀ u, u ∈ utxos ↔ ∃ o, l.utxo o = some u)
    (snapshot : ObservationSnapshot) (o : OutPoint) :
    (((ReconciliationPlanner.planFor utxos snapshot).actionsOn o).foldl Cell.act
      (l.cell o)).Restorable := by
  rw [actionsOn_planFor hk hnd hmem]
  unfold Cell.planAbout Ledger.utxo
  cases hu : (l.cell o).utxo with
  | none =>
    rw [Option.toList_none, List.flatMap_nil, ite_self, List.append_nil]
    exact (h o).foldl_planObserved_none _ _
  | some u =>
    have hasks : ∀ a ∈ (snapshot.about o).flatMap (ReconciliationPlanner.planObserved
        snapshot.timestamp (some u)) ++ (if snapshot.scope = .full ∧ snapshot.about o = [] then
          (some u).toList.flatMap (ReconciliationPlanner.planUnmentioned snapshot.timestamp)
        else []), u.Asks a := by
      refine List.forall_mem_append.mpr ⟨fun a ha => ?_, ReconciliationPlanner.asks_ite fun _ => ?_⟩
      · obtain ⟨observed, -, ha⟩ := List.mem_flatMap.mp ha
        exact ReconciliationPlanner.planManaged_asks _ u observed a ha
      · rw [Option.toList_some, List.flatMap_singleton]
        exact ReconciliationPlanner.planUnmentioned_asks _ u
    obtain ⟨v, k, hfold, hv⟩ := ManagedUtxo.Restorable.foldl_act hasks (.refl u) (h o u hu)
    rw [show l.cell o = ⟨some u, (l.cell o).lock⟩ from Cell.ext hu rfl, hfold]
    intro w hw
    obtain rfl := Option.some.inj hw
    exact hv

/-- Every move keeps outputs restorable, if plans are made from the outputs they are applied to. -/
theorem Restorable.move (hputs : ∀ l u, rules.puts l u → u.Restorable)
    (hplans : ∀ l plan, rules.plans l plan → ∃ utxos snapshot, utxos.Nodup ∧
      (∀ u, u ∈ utxos ↔ ∃ o, l.utxo o = some u) ∧
        plan = ReconciliationPlanner.planFor utxos snapshot)
    (hk : l.WellKeyed) (h : l.Restorable) (hmove : Move rules l l') : l'.Restorable := by
  intro o
  cases hmove with
  | quiet cell | record _ _ _ cell | commit _ _ _ _ cell | fail _ _ _ _ _ cell =>
    rw [cell]
    exact h o
  | put u puts cell =>
    rw [cell, Function.update_apply]
    split_ifs
    · intro v hv
      cases hv
      exact hputs l u puts
    · exact h o
  | failSelected id _ _ _ _ _ _ _ cell | release id _ cell =>
    rw [cell]
    exact (h o).map fun u hu => hu.releaseIfBound id
  | hold batch i op' _ admits _ cell =>
    rw [cell]
    rcases l.holdCells_cases batch o with ⟨e, he, rfl, heq⟩ | ⟨-, heq⟩
    · rw [heq]
      cases admits.holdable e he with
      | free v utxo spendable =>
        rw [Cell.hold_of_free utxo spendable]
        intro u hu
        cases hu
        exact .of_bound rfl
      | held v k utxo binding lock owner =>
        rw [Cell.hold_of_held utxo binding lock owner]
        exact h _
    · rw [heq]
      exact h o
  | reconcile plan plans cell =>
    obtain ⟨utxos, snapshot, hnd, hmem, rfl⟩ := hplans l plan plans
    rw [cell]
    exact h.reconcile hk hnd hmem snapshot o
  | advance id phase _ _ _ _ _ _ _ cell =>
    rw [cell]
    exact (h o).map fun u hu => hu.advanceIfBound id phase

end Ledger

end Txoscope
