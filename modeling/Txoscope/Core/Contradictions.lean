import Txoscope.Core.Planning

/-!
# Observations that speak against an output

Every observation of a snapshot is planned against the output as it was before the snapshot, and the
actions are applied one after the other. When a snapshot mentions an outpoint more than once, the
last observation that sets a field decides it: `foldl_planManaged_eq`. `Cell.Reopens` says when such
observations leave an output on offer although one of them contradicts it.
-/

namespace Txoscope

/-- The value, account and scope of the output were observed. -/
def ObservedUtxo.Matches (observed : ObservedUtxo) (u : ManagedUtxo) : Prop :=
  observed.valueSats = u.valueSats ∧ observed.accountId = u.accountId ∧
    observed.scopeId = u.scopeId

instance (observed : ObservedUtxo) (u : ManagedUtxo) : Decidable (observed.Matches u) :=
  inferInstanceAs (Decidable (_ ∧ _ ∧ _))

/-- The observation speaks against what is recorded of its outpoint. -/
def ObservedUtxo.Contradicts (observed : ObservedUtxo) (recorded : Option ManagedUtxo) : Prop :=
  match observed.spendStatus with
  | .spent _ | .missing => True
  | .unspent => ∃ u, recorded = some u ∧ ¬observed.Matches u
  | .unknown => False

/-- The output an unspent observation makes of an outpoint that is not managed. -/
def ObservedUtxo.discovered (observed : ObservedUtxo) : ManagedUtxo :=
  .discoverFromObserved observed.outpoint observed.accountId observed.scopeId observed.valueSats
    observed.confirmation

/-! ## The last observation that sets a field -/

/-- The last value the observations set, or the initial one. -/
def lastSet {α : Type} (sets : ObservedUtxo → Option α) (observations : List ObservedUtxo)
    (initial : α) : α :=
  (observations.filterMap sets).getLast?.getD initial

@[simp] theorem lastSet_nil {α : Type} (sets : ObservedUtxo → Option α) (initial : α) :
    lastSet sets [] initial = initial := rfl

@[simp] theorem lastSet_cons {α : Type} (sets : ObservedUtxo → Option α) (observed : ObservedUtxo)
    (observations : List ObservedUtxo) (initial : α) :
    lastSet sets (observed :: observations) initial =
      lastSet sets observations ((sets observed).getD initial) := by
  unfold lastSet
  rw [List.filterMap_cons]
  cases sets observed with
  | none => rfl
  | some a =>
    simp only [List.getLast?_cons, Option.getD_some]

theorem lastSet_append_singleton {α : Type} (sets : ObservedUtxo → Option α)
    (observations : List ObservedUtxo) (observed : ObservedUtxo) (initial : α) :
    lastSet sets (observations ++ [observed]) initial =
      (sets observed).getD (lastSet sets observations initial) := by
  induction observations generalizing initial with
  | nil => simp
  | cons _ _ ih => simp only [List.cons_append, lastSet_cons, ih]

theorem lastSet_eq {α : Type} (sets : ObservedUtxo → Option α) (observations : List ObservedUtxo)
    (initial : α) :
    lastSet sets observations initial =
      ((observations.filter fun observed => (sets observed).isSome).getLast?.bind sets).getD
        initial := by
  induction observations using List.reverseRecOn with
  | nil => rfl
  | append_singleton observations observed ih =>
    rw [lastSet_append_singleton, List.filter_append, ih]
    cases hset : sets observed with
    | none => simp [hset]
    | some a => simp [hset]

/-- A value that is not the initial one was set last. -/
theorem lastSet_eq_iff {α : Type} {sets : ObservedUtxo → Option α}
    {observations : List ObservedUtxo} {initial a : α} (ha : initial ≠ a) :
    lastSet sets observations initial = a ↔
      ∃ observed, (observations.filter fun observed => (sets observed).isSome).getLast? =
        some observed ∧ sets observed = some a := by
  rw [lastSet_eq]
  cases hl : (observations.filter fun observed => (sets observed).isSome).getLast? with
  | none => simp [ha]
  | some observed =>
    have hmem := List.mem_of_getLast? hl
    obtain ⟨b, hb⟩ := Option.isSome_iff_exists.mp (List.mem_filter.mp hmem).2
    simp [hb]

/-- A value that no observation sets is kept only if no observation sets another one. -/
theorem lastSet_eq_self_iff {α : Type} {sets : ObservedUtxo → Option α} {initial : α}
    (observations : List ObservedUtxo)
    (hne : ∀ observed, sets observed ≠ some initial) :
    lastSet sets observations initial = initial ↔
      ∀ observed ∈ observations, sets observed = none := by
  induction observations using List.reverseRecOn with
  | nil => simp
  | append_singleton observations observed ih =>
    rw [lastSet_append_singleton]
    simp only [List.mem_append, List.mem_singleton]
    cases hset : sets observed with
    | none =>
      rw [Option.getD_none, ih]
      constructor
      · rintro h x (hx | rfl)
        · exact h x hx
        · exact hset
      · exact fun h x hx => h x (.inl hx)
    | some a =>
      rw [Option.getD_some]
      constructor
      · rintro rfl
        exact (hne observed hset).elim
      · intro h
        rw [h observed (.inr rfl)] at hset
        cases hset

namespace ManagedUtxo

open ReconciliationPlanner

/-- The observation differs from the output in value, account or scope. -/
def differs (u : ManagedUtxo) (observed : ObservedUtxo) : Bool :=
  (observedMismatchMessage u observed).isSome

/-- The availability an observation sets, as it is planned for the output `u`. -/
def setsAvailability (u : ManagedUtxo) (observed : ObservedUtxo) : Option Availability :=
  match observed.spendStatus with
  | .missing => some .recovering
  | .unspent => restoredUnspentAvailability u observed (u.differs observed)
  | .spent _ | .unknown => none

/-- The on-chain state an observation sets. -/
def setsOnchainState (u : ManagedUtxo) (observed : ObservedUtxo) : Option OnchainState :=
  if observed.spendStatus = .unspent ∧ u.onchainState ≠ .spendingInFlight ∧
      u.onchainState ≠ observed.confirmation.onchainState then
    some observed.confirmation.onchainState
  else none

/-- Whether an observation reports a conflict or clears one, if it does either. -/
def setsConflict (u : ManagedUtxo) (observed : ObservedUtxo) : Option Bool :=
  match observed.spendStatus with
  | .missing => if u.availability = .reserved then some true else none
  | .unspent =>
    if u.differs observed then some true
    else if u.observationConflict.isSome then some false else none
  | .spent _ | .unknown => none

theorem differs_iff {u : ManagedUtxo} {observed : ObservedUtxo} :
    u.differs observed = true ↔ ¬observed.Matches u := by
  unfold differs observedMismatchMessage ObservedUtxo.Matches
  by_cases hv : u.valueSats = observed.valueSats <;> by_cases ha : u.accountId = observed.accountId <;>
    by_cases hs : u.scopeId = observed.scopeId <;> simp [hv, ha, hs, eq_comm]

theorem differs_eq_false_iff {u : ManagedUtxo} {observed : ObservedUtxo} :
    u.differs observed = false ↔ observed.Matches u := by
  rw [← Bool.not_eq_true, differs_iff, not_not]

/-- The same value, account and scope. -/
def SameIdentity (u v : ManagedUtxo) : Prop :=
  v.valueSats = u.valueSats ∧ v.accountId = u.accountId ∧ v.scopeId = u.scopeId

theorem SameIdentity.contradicts {u v : ManagedUtxo} (h : SameIdentity u v)
    (observed : ObservedUtxo) :
    observed.Contradicts (some v) ↔ observed.Contradicts (some u) := by
  obtain ⟨hvalue, haccount, hscope⟩ := h
  unfold ObservedUtxo.Contradicts ObservedUtxo.Matches
  simp only [Option.some.injEq, exists_eq_left', hvalue, haccount, hscope]

theorem SameIdentity.refl (u : ManagedUtxo) : SameIdentity u u := ⟨rfl, rfl, rfl⟩

theorem SameIdentity.trans {u v w : ManagedUtxo} (h : SameIdentity u v) (h' : SameIdentity v w) :
    SameIdentity u w :=
  ⟨h'.1.trans h.1, h'.2.1.trans h.2.1, h'.2.2.trans h.2.2⟩

/-- `w` is what observations, planned for `u`, make of `v`. -/
structure Becomes (u v : ManagedUtxo) (observations : List ObservedUtxo) (w : ManagedUtxo) :
    Prop where
  availability : w.availability = lastSet u.setsAvailability observations v.availability
  onchainState : w.onchainState = lastSet u.setsOnchainState observations v.onchainState
  conflict : w.observationConflict.isSome =
    lastSet u.setsConflict observations v.observationConflict.isSome
  binding : w.operationBinding = v.operationBinding
  identity : SameIdentity v w

theorem Becomes.refl (u v : ManagedUtxo) : Becomes u v [] v := ⟨rfl, rfl, rfl, rfl, .refl v⟩

theorem Becomes.cons {u v w x : ManagedUtxo} {observed : ObservedUtxo}
    {observations : List ObservedUtxo} (h : Becomes u v [observed] w)
    (h' : Becomes u w observations x) : Becomes u v (observed :: observations) x where
  availability := by rw [h'.availability, h.availability]; simp
  onchainState := by rw [h'.onchainState, h.onchainState]; simp
  conflict := by rw [h'.conflict, h.conflict]; simp
  binding := h'.binding.trans h.binding
  identity := h.identity.trans h'.identity

/-- An observation never sets a spending state. -/
theorem Becomes.isSpending_eq_false {u v w : ManagedUtxo} {observed : ObservedUtxo}
    (h : Becomes u v [observed] w) (hv : v.onchainState.isSpending = false) :
    w.onchainState.isSpending = false := by
  rw [h.onchainState]
  simp only [lastSet_cons, lastSet_nil, setsOnchainState]
  split_ifs
  · cases observed.confirmation <;> rfl
  · exact hv

end ManagedUtxo

namespace Cell

open ReconciliationPlanner

variable {timestamp : ℕ} {u v : ManagedUtxo} {k : Option OperationLock} {observed : ObservedUtxo}
  {observations : List ObservedUtxo}

variable (timestamp k) in
/-- The actions of one observation that reports no spend. -/
theorem foldl_planManaged_one (hu : u.onchainState.isSpending = false)
    (hv : v.onchainState.isSpending = false) (hs : ∀ txid, observed.spendStatus ≠ .spent txid) :
    ∃ w, (planManaged timestamp u observed).foldl act ⟨some v, k⟩ = ⟨some w, k⟩ ∧
      u.Becomes v [observed] w := by
  have hnot : u.onchainState ≠ .spent := fun h => by rw [h] at hu; cases hu
  unfold planManaged
  cases hstatus : observed.spendStatus with
  | unknown =>
    refine ⟨v, rfl, ⟨?_, ?_, ?_, rfl, .refl v⟩⟩
    · simp [ManagedUtxo.setsAvailability, hstatus]
    · simp [ManagedUtxo.setsOnchainState, hstatus]
    · simp [ManagedUtxo.setsConflict, hstatus]
  | spent txid => exact (hs txid hstatus).elim
  | missing =>
    simp only [hnot, ne_eq, not_false_eq_true, if_true]
    by_cases hr : u.availability = .reserved
    · rw [if_pos hr]
      refine ⟨_, rfl, ⟨?_, ?_, ?_, rfl, .refl v⟩⟩
      · simp [ManagedUtxo.setsAvailability, hstatus, ManagedUtxo.markMissing]
      · simp [ManagedUtxo.setsOnchainState, hstatus, ManagedUtxo.markMissing]
      · simp [ManagedUtxo.setsConflict, hstatus, hr, ManagedUtxo.markMissing]
    · rw [if_neg hr]
      refine ⟨_, rfl, ⟨?_, ?_, ?_, rfl, .refl v⟩⟩
      · simp [ManagedUtxo.setsAvailability, hstatus, ManagedUtxo.markMissing]
      · simp [ManagedUtxo.setsOnchainState, hstatus, ManagedUtxo.markMissing]
      · simp [ManagedUtxo.setsConflict, hstatus, hr, ManagedUtxo.markMissing]
  | unspent =>
    simp only [hnot, if_false, List.foldl_append]
    rw [foldl_report, foldl_availability, foldl_clear, foldl_onchain]
    · refine ⟨_, rfl, ⟨?_, ?_, ?_, rfl, ⟨rfl, rfl, rfl⟩⟩⟩
      · simp [ManagedUtxo.setsAvailability, ManagedUtxo.differs, hstatus]
      · simp only [lastSet_cons, lastSet_nil, ManagedUtxo.setsOnchainState, hstatus, true_and]
        split_ifs <;> rfl
      · simp only [lastSet_cons, lastSet_nil, ManagedUtxo.setsConflict, ManagedUtxo.differs,
          hstatus]
        by_cases hm : observedMismatchMessage u observed = none
        · by_cases hc : u.observationConflict.isSome = true <;> simp [hm, hc]
        · obtain ⟨message, hm⟩ := Option.ne_none_iff_exists'.mp hm
          simp [hm]
    · intro _
      exact hv

variable (timestamp k) in
/-- Observations that report no spend: the last one that sets a field decides it. -/
theorem foldl_planManaged_eq (hu : u.onchainState.isSpending = false)
    (hv : v.onchainState.isSpending = false)
    (hs : ∀ observed ∈ observations, ∀ txid, observed.spendStatus ≠ .spent txid) :
    ∃ w, (observations.flatMap (planManaged timestamp u)).foldl act ⟨some v, k⟩ = ⟨some w, k⟩ ∧
      u.Becomes v observations w := by
  induction observations generalizing v with
  | nil => exact ⟨v, rfl, .refl u v⟩
  | cons observed observations ih =>
    obtain ⟨hfirst, hrest⟩ := List.forall_mem_cons.mp hs
    obtain ⟨w, hw, hbecomes⟩ := foldl_planManaged_one timestamp k hu hv hfirst
    obtain ⟨x, hx, hbecomes'⟩ := ih (hbecomes.isSpending_eq_false hv) hrest
    refine ⟨x, ?_, hbecomes.cons hbecomes'⟩
    rw [List.flatMap_cons, List.foldl_append, hw, hx]

/-! ## Spending outputs -/

/-- The output can be locked: this is what `UtxoStatus::is_selectable` reports. -/
def selectable (c : Cell) : Bool := c.utxo.any fun u => u.canBeLocked c.lock.isSome

/-- The output is spent, or its spending is in flight. -/
def Spending (c : Cell) : Prop := ∃ u, c.utxo = some u ∧ u.onchainState.isSpending = true

theorem selectable_iff {c : Cell} : c.selectable = true ↔
    c.lock = none ∧ ∃ u, c.utxo = some u ∧ u.isPolicySpendable = true := by
  unfold selectable
  rw [Option.any_eq_true]
  simp only [ManagedUtxo.canBeLocked_iff, Option.isSome_eq_false_iff, Option.isNone_iff_eq_none]
  constructor
  · rintro ⟨u, hu, hspend, hlock⟩
    exact ⟨hlock, u, hu, hspend⟩
  · rintro ⟨hlock, u, hu, hspend⟩
    exact ⟨u, hu, hspend, hlock⟩

theorem Spending.not_selectable {c : Cell} (h : c.Spending) : c.selectable = false := by
  obtain ⟨u, hu, hspending⟩ := h
  rw [← Bool.not_eq_true, selectable_iff]
  rintro ⟨-, v, hv, hspendable⟩
  rw [hu, Option.some.injEq] at hv
  subst v
  rw [(ManagedUtxo.isPolicySpendable_iff.mp hspendable).2.1] at hspending
  cases hspending

/-- No action takes a spending output back. -/
theorem Spending.act {c : Cell} (h : c.Spending) (action : ReconciliationAction) :
    (c.act action).Spending := by
  obtain ⟨u, hu, hspending⟩ := h
  cases action with
  | discoverNew observed => exact ⟨u, by simp [Cell.act, hu], hspending⟩
  | refreshObserved observed => exact ⟨u, hu, hspending⟩
  | updateOnchainState outpoint newState => exact ⟨u, by simp [Cell.act, hu, hspending], hspending⟩
  | markSpent outpoint txid => exact ⟨u.markSpent, by simp [Cell.act, hu], rfl⟩
  | reportConflict outpoint message recordedAt =>
    exact ⟨{ u with observationConflict := some ⟨message, recordedAt⟩ }, by simp [Cell.act, hu],
      hspending⟩
  | clearConflict outpoint =>
    exact ⟨{ u with observationConflict := none }, by simp [Cell.act, hu], hspending⟩
  | updateAvailability outpoint availability =>
    exact ⟨{ u with availability }, by simp [Cell.act, hu], hspending⟩
  | markMissing outpoint => exact ⟨u.markMissing, by simp [Cell.act, hu], hspending⟩

theorem Spending.foldl {c : Cell} (h : c.Spending) (actions : List ReconciliationAction) :
    (actions.foldl Cell.act c).Spending := by
  induction actions generalizing c with
  | nil => exact h
  | cons action actions ih => exact ih (h.act action)

theorem isSome_foldl {c : Cell} (h : c.utxo.isSome = true) (actions : List ReconciliationAction) :
    (actions.foldl Cell.act c).utxo.isSome = true := by
  induction actions generalizing c with
  | nil => exact h
  | cons action actions ih =>
    refine ih ?_
    cases action <;> simp [Cell.act, h]

/-- A spend that is observed of an output that is not spent yet makes it spend. -/
theorem spending_of_spent (hu : u.onchainState ≠ .spent) {txid : String}
    (hmem : observed ∈ observations) (hs : observed.spendStatus = .spent txid) :
    ((observations.flatMap (planManaged timestamp u)).foldl act ⟨some v, k⟩).Spending := by
  obtain ⟨before, after, rfl⟩ := List.append_of_mem hmem
  rw [List.flatMap_append, List.flatMap_cons, List.foldl_append, List.foldl_append]
  refine Spending.foldl ?_ _
  have hsome := isSome_foldl (c := ⟨some v, k⟩) rfl (before.flatMap (planManaged timestamp u))
  simp only [planManaged, hs, ne_eq, hu, not_false_eq_true, if_true]
  rw [List.foldl_append]
  have hsome' := isSome_foldl hsome (if u.availability = .reserved then
    [.reportConflict u.outpoint ("Reserved UTXO spent by " ++ txid) timestamp] else [])
  obtain ⟨w, hw⟩ := Option.isSome_iff_exists.mp hsome'
  exact ⟨w.markSpent, by simp [Cell.act, hw], rfl⟩

/-! ## New outputs -/

theorem foldl_planObserved_discovered (u : ManagedUtxo) :
    (observations.flatMap (planObserved timestamp none)).foldl act ⟨some u, k⟩ = ⟨some u, k⟩ := by
  induction observations with
  | nil => rfl
  | cons observed observations ih =>
    rw [List.flatMap_cons, List.foldl_append]
    cases hs : observed.spendStatus <;> simpa [planObserved, hs, act] using ih

/-- The first unspent observation of an outpoint that is not managed is recorded. -/
theorem foldl_planObserved_none :
    (observations.flatMap (planObserved timestamp none)).foldl act ⟨none, k⟩ =
      ⟨(observations.find? fun observed => observed.spendStatus = .unspent).map
        ObservedUtxo.discovered, k⟩ := by
  induction observations with
  | nil => rfl
  | cons observed observations ih =>
    rw [List.flatMap_cons, List.foldl_append]
    by_cases hs : observed.spendStatus = .unspent
    · have hfirst : (planObserved timestamp none observed).foldl act ⟨none, k⟩ =
          ⟨some observed.discovered, k⟩ := by
        simp [planObserved, hs, act, ObservedUtxo.discovered]
      rw [hfirst, foldl_planObserved_discovered]
      simp [hs]
    · have hfirst : (planObserved timestamp none observed).foldl act ⟨none, k⟩ = ⟨none, k⟩ := by
        cases hs' : observed.spendStatus <;> simp_all [planObserved]
      rw [hfirst, ih]
      simp [hs]

end Cell

/-! ## What stays on offer -/

namespace ManagedUtxo

open ReconciliationPlanner

/-- The observation changes the availability of an unbound output that is `Recovering` or
`BlockedByPolicy`. -/
def MovedBy (u : ManagedUtxo) (observed : ObservedUtxo) : Prop :=
  observed.spendStatus = .missing ∨
    (observed.spendStatus = .unspent ∧ (u.availability = .recovering ∨
      (observed.Matches u ∧ observed.confirmation.onchainState = .confirmed)))

instance (u : ManagedUtxo) (observed : ObservedUtxo) : Decidable (u.MovedBy observed) :=
  inferInstanceAs (Decidable (_ ∨ _))

/-- The observations contradict the output `u` and yet make it selectable: an unbound output that
was withheld is seen unspent as recorded and confirmed, and no later observation of the same
snapshot takes back what this one restores. -/
structure Reopened (u : ManagedUtxo) (observations : List ObservedUtxo) : Prop where
  withheld : u.availability = .recovering ∨ u.availability = .blockedByPolicy
  unbound : u.operationBinding = none
  unspent : u.onchainState.isSpending = false
  noSpend : ∀ observed ∈ observations, ∀ txid, observed.spendStatus ≠ .spent txid
  contradicted : ∃ observed ∈ observations, observed.Contradicts (some u)
  /-- The last observation that changes the availability restores it. -/
  restored : ∃ observed, (observations.filter fun observed => u.MovedBy observed).getLast? =
    some observed ∧ observed.spendStatus = .unspent ∧ observed.Matches u ∧
      observed.confirmation.onchainState = .confirmed
  /-- Without a conflict on record, every unspent observation matches. -/
  noConflict : u.observationConflict = none →
    ∀ observed ∈ observations, observed.spendStatus = .unspent → observed.Matches u
  /-- A conflict on record is cleared by the last unspent observation. -/
  cleared : u.observationConflict ≠ none →
    ∃ observed, (observations.filter fun observed => observed.spendStatus = .unspent).getLast? =
      some observed ∧ observed.Matches u
  /-- A confirmed output is seen confirmed only. -/
  staysConfirmed : u.onchainState = .confirmed →
    ∀ observed ∈ observations, observed.spendStatus = .unspent →
      observed.confirmation.onchainState = .confirmed
  /-- Another output becomes confirmed with the last observation of another on-chain state. -/
  becomesConfirmed : u.onchainState ≠ .confirmed →
    ∃ observed, (observations.filter fun observed => observed.spendStatus = .unspent ∧
      u.onchainState ≠ observed.confirmation.onchainState).getLast? = some observed ∧
        observed.confirmation.onchainState = .confirmed

variable {u w : ManagedUtxo} {observed : ObservedUtxo} {observations : List ObservedUtxo}

theorem availability_eq_selectable_iff {confirmation : ObservedConfirmation} :
    confirmation.availability = .selectable ↔ confirmation.onchainState = .confirmed := by
  cases confirmation <;>
    simp [ObservedConfirmation.availability, ObservedConfirmation.onchainState]

theorem ne_spent_of_isSpending (hu : u.onchainState.isSpending = false) :
    u.onchainState ≠ .spent ∧ u.onchainState ≠ .spendingInFlight := by
  constructor <;> intro h <;> rw [h] at hu <;> cases hu

/-- An observation makes an unbound output selectable only if it was withheld. -/
theorem setsAvailability_eq_selectable_iff (hu : u.onchainState.isSpending = false)
    (hb : u.operationBinding = none) :
    u.setsAvailability observed = some .selectable ↔
      (u.availability = .recovering ∨ u.availability = .blockedByPolicy) ∧
        observed.spendStatus = .unspent ∧ observed.Matches u ∧
          observed.confirmation.onchainState = .confirmed := by
  obtain ⟨hspent, hflight⟩ := ne_spent_of_isSpending hu
  rw [← availability_eq_selectable_iff, ← differs_eq_false_iff]
  unfold setsAvailability
  cases hs : observed.spendStatus with
  | spent txid => simp
  | missing => simp
  | unknown => simp
  | unspent =>
    simp only [restoredUnspentAvailability, hspent, hflight, if_false, hb, Option.isSome_none]
    cases u.differs observed <;> cases u.availability <;> cases observed.confirmation <;>
      simp [ObservedConfirmation.availability]

theorem setsAvailability_isSome_iff (hu : u.onchainState.isSpending = false)
    (hb : u.operationBinding = none)
    (hw : u.availability = .recovering ∨ u.availability = .blockedByPolicy) :
    (u.setsAvailability observed).isSome = true ↔ u.MovedBy observed := by
  obtain ⟨hspent, hflight⟩ := ne_spent_of_isSpending hu
  unfold MovedBy
  rw [← availability_eq_selectable_iff, ← differs_eq_false_iff]
  unfold setsAvailability
  cases hs : observed.spendStatus with
  | spent txid => simp
  | missing => simp
  | unknown => simp
  | unspent =>
    simp only [restoredUnspentAvailability, hspent, hflight, if_false, hb, Option.isSome_none]
    rcases hw with hw | hw <;> rw [hw] <;> cases u.differs observed <;>
      cases observed.confirmation <;> simp [ObservedConfirmation.availability]

/-- A contradiction sets the availability of an unbound output, unless it is `BlockedByPolicy`. -/
theorem setsAvailability_ne_none (hu : u.onchainState.isSpending = false)
    (hb : u.operationBinding = none) (ha : u.availability ≠ .blockedByPolicy)
    (hs : ∀ txid, observed.spendStatus ≠ .spent txid)
    (hc : observed.Contradicts (some u)) : u.setsAvailability observed ≠ none := by
  obtain ⟨hspent, hflight⟩ := ne_spent_of_isSpending hu
  unfold ObservedUtxo.Contradicts at hc
  unfold setsAvailability
  cases hst : observed.spendStatus with
  | spent txid => exact (hs txid hst).elim
  | missing => simp
  | unknown => simp [hst] at hc
  | unspent =>
    simp only [hst, Option.some.injEq, exists_eq_left'] at hc
    simp [restoredUnspentAvailability, hspent, hflight, hb, differs_iff.mpr hc, ha]

theorem setsOnchainState_isSome_iff (hu : u.onchainState.isSpending = false) :
    (u.setsOnchainState observed).isSome = true ↔ observed.spendStatus = .unspent ∧
      u.onchainState ≠ observed.confirmation.onchainState := by
  obtain ⟨-, hflight⟩ := ne_spent_of_isSpending hu
  unfold setsOnchainState
  split_ifs with h
  · simpa using ⟨h.1, h.2.2⟩
  · simpa [hflight] using h

theorem setsOnchainState_eq_some {state : OnchainState}
    (h : u.setsOnchainState observed = some state) :
    observed.confirmation.onchainState = state := by
  unfold setsOnchainState at h
  split_ifs at h
  exact Option.some.inj h

section Conflict

variable (hr : u.availability ≠ .reserved)
include hr

theorem setsConflict_of_conflict (hc : u.observationConflict ≠ none) :
    (u.setsConflict observed).isSome = true ↔ observed.spendStatus = .unspent := by
  unfold setsConflict
  have hsome : u.observationConflict.isSome = true := Option.isSome_iff_ne_none.mpr hc
  cases observed.spendStatus <;> simp [hr, hsome]
  split_ifs <;> rfl

theorem setsConflict_eq_none (hc : u.observationConflict = none) :
    u.setsConflict observed = none ↔ (observed.spendStatus = .unspent → observed.Matches u) := by
  unfold setsConflict
  rw [← differs_eq_false_iff]
  cases observed.spendStatus <;> simp [hr, hc]

theorem setsConflict_ne_false (hc : u.observationConflict = none) :
    u.setsConflict observed ≠ some false := by
  unfold setsConflict
  cases observed.spendStatus <;> simp [hr, hc]

theorem setsConflict_eq_false_iff (hc : u.observationConflict ≠ none) :
    u.setsConflict observed = some false ↔
      observed.spendStatus = .unspent ∧ observed.Matches u := by
  unfold setsConflict
  have hsome : u.observationConflict.isSome = true := Option.isSome_iff_ne_none.mpr hc
  rw [← differs_eq_false_iff]
  cases observed.spendStatus <;> simp [hr, hsome]

end Conflict

section Becomes

variable (h : u.Becomes u observations w)
include h

theorem Becomes.conflict_eq_none_iff (hr : u.availability ≠ .reserved) :
    w.observationConflict = none ↔
      (u.observationConflict = none →
        ∀ observed ∈ observations, observed.spendStatus = .unspent → observed.Matches u) ∧
      (u.observationConflict ≠ none →
        ∃ observed, (observations.filter fun observed =>
          observed.spendStatus = .unspent).getLast? = some observed ∧ observed.Matches u) := by
  rw [← Option.isNone_iff_eq_none, ← Option.isSome_eq_false_iff, h.conflict]
  by_cases hc : u.observationConflict = none
  · have hne : ∀ observed, u.setsConflict observed ≠ some u.observationConflict.isSome := by
      intro observed
      rw [hc]
      exact setsConflict_ne_false hr hc
    have hself := lastSet_eq_self_iff observations hne
    rw [hc] at hself ⊢
    simp only [setsConflict_eq_none hr hc] at hself
    simpa using hself
  · have hsome : u.observationConflict.isSome = true := Option.isSome_iff_ne_none.mpr hc
    have hfilter : (observations.filter fun observed => (u.setsConflict observed).isSome) =
        observations.filter fun observed => observed.spendStatus = .unspent :=
      List.filter_congr fun observed _ => by
        rw [Bool.eq_iff_iff, setsConflict_of_conflict hr hc, decide_eq_true_eq]
    rw [hsome, lastSet_eq_iff (by decide), hfilter]
    simp only [setsConflict_eq_false_iff hr hc, hc, false_imp_iff, true_and, ne_eq,
      not_false_eq_true, forall_const]
    refine exists_congr fun observed => and_congr_right fun hlast => and_iff_right ?_
    simpa using (List.mem_filter.mp (List.mem_of_getLast? hlast)).2

theorem Becomes.confirmed_iff (hu : u.onchainState.isSpending = false) :
    w.onchainState = .confirmed ↔
      (u.onchainState = .confirmed →
        ∀ observed ∈ observations, observed.spendStatus = .unspent →
          observed.confirmation.onchainState = .confirmed) ∧
      (u.onchainState ≠ .confirmed →
        ∃ observed, (observations.filter fun observed => observed.spendStatus = .unspent ∧
          u.onchainState ≠ observed.confirmation.onchainState).getLast? = some observed ∧
            observed.confirmation.onchainState = .confirmed) := by
  rw [h.onchainState]
  have hsome : ∀ observed, (u.setsOnchainState observed).isSome = true ↔
      observed.spendStatus = .unspent ∧ u.onchainState ≠ observed.confirmation.onchainState :=
    fun observed => setsOnchainState_isSome_iff hu
  by_cases hc : u.onchainState = .confirmed
  · have hne : ∀ observed, u.setsOnchainState observed ≠ some u.onchainState := by
      intro observed heq
      have hset := (hsome observed).mp (by rw [heq]; rfl)
      exact hset.2 (setsOnchainState_eq_some heq).symm
    have hself := lastSet_eq_self_iff observations hne
    simp only [← Option.not_isSome_iff_eq_none, hsome] at hself
    rw [hc] at hself ⊢
    rw [hself]
    simp [eq_comm]
  · have hfilter : (observations.filter fun observed => (u.setsOnchainState observed).isSome) =
        observations.filter fun observed => observed.spendStatus = .unspent ∧
          u.onchainState ≠ observed.confirmation.onchainState :=
      List.filter_congr fun observed _ => by
        rw [Bool.eq_iff_iff, hsome, decide_eq_true_eq]
    rw [lastSet_eq_iff hc, hfilter]
    simp only [hc, false_imp_iff, true_and, ne_eq, not_false_eq_true, forall_const]
    refine exists_congr fun observed => and_congr_right fun hlast => ?_
    have hmem := (List.mem_filter.mp (List.mem_of_getLast? hlast)).2
    rw [decide_eq_true_eq] at hmem
    obtain ⟨state, hstate⟩ := Option.isSome_iff_exists.mp ((hsome observed).mpr hmem)
    rw [hstate, setsOnchainState_eq_some hstate, Option.some.injEq]

/-- Observations that report no spend leave an output selectable against one of them exactly when
they reopen it. -/
theorem Becomes.reopened_iff (hu : u.onchainState.isSpending = false)
    (hs : ∀ observed ∈ observations, ∀ txid, observed.spendStatus ≠ .spent txid) :
    (w.isPolicySpendable = true ∧ ∃ observed ∈ observations, observed.Contradicts (some w)) ↔
      u.Reopened observations := by
  simp only [h.identity.contradicts, isPolicySpendable_iff, h.availability, h.binding]
  constructor
  · rintro ⟨⟨havailable, honchain, hb, hconflict⟩, hcontradicted⟩
    have hnot : u.availability ≠ .selectable := by
      intro hselectable
      have hne : ∀ observed, u.setsAvailability observed ≠ some u.availability := by
        intro observed heq
        rw [hselectable] at heq
        have hw := ((setsAvailability_eq_selectable_iff hu hb).mp heq).1
        rw [hselectable] at hw
        simp at hw
      obtain ⟨observed, hmem, hc⟩ := hcontradicted
      refine setsAvailability_ne_none hu hb (by rw [hselectable]; decide) (hs observed hmem) hc ?_
      exact (lastSet_eq_self_iff observations hne).mp (havailable.trans hselectable.symm) observed hmem
    obtain ⟨observed, hlast, hset⟩ := (lastSet_eq_iff hnot).mp havailable
    obtain ⟨hw, hrestores⟩ := (setsAvailability_eq_selectable_iff hu hb).mp hset
    have hr : u.availability ≠ .reserved := by rcases hw with hw | hw <;> rw [hw] <;> decide
    have hfilter : (observations.filter fun observed => (u.setsAvailability observed).isSome) =
        observations.filter fun observed => u.MovedBy observed :=
      List.filter_congr fun observed _ => by
        rw [Bool.eq_iff_iff, setsAvailability_isSome_iff hu hb hw, decide_eq_true_eq]
    rw [h.conflict_eq_none_iff hr] at hconflict
    rw [h.confirmed_iff hu] at honchain
    exact ⟨hw, hb, hu, hs, hcontradicted, ⟨observed, hfilter ▸ hlast, hrestores⟩, hconflict.1,
      hconflict.2, honchain.1, honchain.2⟩
  · intro hopen
    have hw := hopen.withheld
    have hb := hopen.unbound
    have hr : u.availability ≠ .reserved := by rcases hw with hw | hw <;> rw [hw] <;> decide
    have hnot : u.availability ≠ .selectable := by rcases hw with hw | hw <;> rw [hw] <;> decide
    have hfilter : (observations.filter fun observed => (u.setsAvailability observed).isSome) =
        observations.filter fun observed => u.MovedBy observed :=
      List.filter_congr fun observed _ => by
        rw [Bool.eq_iff_iff, setsAvailability_isSome_iff hu hb hw, decide_eq_true_eq]
    obtain ⟨observed, hlast, hrestores⟩ := hopen.restored
    have havailable := (lastSet_eq_iff hnot).mpr ⟨observed, hfilter ▸ hlast,
      (setsAvailability_eq_selectable_iff hu hb).mpr ⟨hw, hrestores⟩⟩
    exact ⟨⟨havailable, (h.confirmed_iff hu).mpr ⟨hopen.staysConfirmed, hopen.becomesConfirmed⟩,
      hb, (h.conflict_eq_none_iff hr).mpr ⟨hopen.noConflict, hopen.cleared⟩⟩,
      hopen.contradicted⟩

end Becomes

end ManagedUtxo

namespace Cell

open ReconciliationPlanner

/-- The observations leave the cell selectable although one of them contradicts it. -/
def Reopens (observations : List ObservedUtxo) (c : Cell) : Prop :=
  c.lock = none ∧
    match c.utxo with
    | none => ∃ first,
        observations.find? (fun observed => observed.spendStatus = .unspent) = some first ∧
          first.confirmation.onchainState = .confirmed ∧
            ∃ observed ∈ observations, observed.Contradicts (some first.discovered)
    | some u => u.Reopened observations

theorem isPolicySpendable_discovered {observed : ObservedUtxo} :
    observed.discovered.isPolicySpendable = true ↔
      observed.confirmation.onchainState = .confirmed := by
  unfold ObservedUtxo.discovered ManagedUtxo.discoverFromObserved ManagedUtxo.isPolicySpendable
  cases observed.confirmation <;>
    simp [ObservedConfirmation.availability, ObservedConfirmation.onchainState]

theorem selectable_contradicted_iff {timestamp : ℕ} {observations : List ObservedUtxo} (c : Cell) :
    (((observations.flatMap (planObserved timestamp c.utxo)).foldl act c).selectable = true ∧
      ∃ observed ∈ observations, observed.Contradicts
        ((observations.flatMap (planObserved timestamp c.utxo)).foldl act c).utxo) ↔
      c.Reopens observations := by
  obtain ⟨utxo, k⟩ := c
  unfold Reopens
  cases utxo with
  | none =>
    rw [foldl_planObserved_none, selectable_iff]
    cases observations.find? fun observed => observed.spendStatus = .unspent with
    | none => simp
    | some first => simp [isPolicySpendable_discovered, and_assoc]
  | some u =>
    have hspending : ((observations.flatMap (planManaged timestamp u)).foldl act
        ⟨some u, k⟩).Spending → ¬u.Reopened observations →
        ((((observations.flatMap (planManaged timestamp u)).foldl act ⟨some u, k⟩).selectable =
          true ∧ ∃ observed ∈ observations, observed.Contradicts
            ((observations.flatMap (planManaged timestamp u)).foldl act ⟨some u, k⟩).utxo) ↔
          k = none ∧ u.Reopened observations) := by
      intro hr hno
      simp [hr.not_selectable, hno]
    change (((observations.flatMap (planManaged timestamp u)).foldl act ⟨some u, k⟩).selectable =
      true ∧ ∃ observed ∈ observations, observed.Contradicts
        ((observations.flatMap (planManaged timestamp u)).foldl act ⟨some u, k⟩).utxo) ↔
      k = none ∧ u.Reopened observations
    by_cases hu : u.onchainState.isSpending = true
    · refine hspending (Spending.foldl ⟨u, rfl, hu⟩ _) fun hopen => ?_
      rw [hopen.unspent] at hu
      cases hu
    · rw [Bool.not_eq_true] at hu
      by_cases hs : ∀ observed ∈ observations, ∀ txid, observed.spendStatus ≠ .spent txid
      · obtain ⟨w, hw, hbecomes⟩ := foldl_planManaged_eq timestamp k hu hu hs
        rw [hw, selectable_iff, ← hbecomes.reopened_iff hu hs]
        simp [and_assoc]
      · simp only [not_forall, not_not] at hs
        obtain ⟨observed, hmem, txid, htxid⟩ := hs
        refine hspending (spending_of_spent (ManagedUtxo.ne_spent_of_isSpending hu).1 hmem htxid)
          fun hopen => ?_
        exact hopen.noSpend observed hmem txid htxid

/-- It takes two observations to reopen a cell. -/
theorem not_reopens_singleton (observed : ObservedUtxo) (c : Cell) : ¬c.Reopens [observed] := by
  rintro ⟨-, h⟩
  cases hu : c.utxo with
  | none =>
    simp only [hu] at h
    obtain ⟨first, hfirst, -, x, hmem, hc⟩ := h
    obtain ⟨hunspent, hmem'⟩ := List.find?_some hfirst, List.mem_of_find?_eq_some hfirst
    rw [List.mem_singleton] at hmem hmem'
    subst x first
    unfold ObservedUtxo.Contradicts at hc
    rw [decide_eq_true_eq] at hunspent
    simp [hunspent, ObservedUtxo.Matches, ObservedUtxo.discovered,
      ManagedUtxo.discoverFromObserved] at hc
  | some u =>
    simp only [hu] at h
    obtain ⟨x, hlast, hunspent, hmatches, -⟩ := h.restored
    obtain ⟨y, hmem, hc⟩ := h.contradicted
    have hx := (List.mem_filter.mp (List.mem_of_getLast? hlast)).1
    rw [List.mem_singleton] at hmem hx
    subst x y
    unfold ObservedUtxo.Contradicts at hc
    simp [hunspent, hmatches] at hc

end Cell

end Txoscope
