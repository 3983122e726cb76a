import Txoscope.Core.Lifecycle
import Txoscope.Core.Reconciliation

/-!
# What a reconciliation does to one output

The planner compares a snapshot with all managed outputs, and its plan is applied action by action.
For one outpoint this is short: `Cell.observe` is what an observation makes of a cell, and
`Cell.overlook` what it means to be left out by a full snapshot. `actionsOn_planFor` and
`foldl_planObserved` connect the plan with the two.
-/

namespace Txoscope

/-! ## One output -/

namespace ManagedUtxo

/-- The conflict recorded when a reserved output is contradicted. -/
def contradicted (u : ManagedUtxo) (message : String) (timestamp : ℕ) :
    Option ObservationConflict :=
  if u.availability = .reserved then some ⟨message, timestamp⟩ else u.observationConflict

/-- An output that was seen spent. -/
def seenSpent (u : ManagedUtxo) (spendingTxid : String) (timestamp : ℕ) : ManagedUtxo :=
  { u.markSpent with
    observationConflict := u.contradicted ("Reserved UTXO spent by " ++ spendingTxid) timestamp }

/-- An output that was reported or found missing. -/
def seenMissing (u : ManagedUtxo) (message : String) (timestamp : ℕ) : ManagedUtxo :=
  { u.markMissing with observationConflict := u.contradicted message timestamp }

/-- The availability of an output that was seen unspent. -/
def seenAvailability (u : ManagedUtxo) (observed : ObservedUtxo) (mismatch : Bool) :
    Availability :=
  if u.onchainState = .spendingInFlight then .blockedByL2
  else if u.operationBinding.isSome then
    if u.availability = .recovering then .reserved else u.availability
  else if mismatch then .blockedByPolicy
  else if u.availability = .recovering ∨ u.availability = .blockedByPolicy ∨
      u.availability = .selectable then observed.confirmation.availability
  else u.availability

/-- An output that was seen unspent: it has a conflict exactly when the observation differs. -/
def seenUnspent (u : ManagedUtxo) (observed : ObservedUtxo) (timestamp : ℕ) : ManagedUtxo :=
  let mismatch := ReconciliationPlanner.observedMismatchMessage u observed
  { u with
    availability := u.seenAvailability observed mismatch.isSome
    onchainState := if u.onchainState = .spendingInFlight then .spendingInFlight
      else observed.confirmation.onchainState
    observationConflict := mismatch.map fun message => ⟨message, timestamp⟩ }

end ManagedUtxo

namespace Cell

/-- What an observation makes of the output it is about. -/
def observe (timestamp : ℕ) (observed : ObservedUtxo) (c : Cell) : Cell :=
  match c.utxo with
  | none =>
    if observed.spendStatus = .unspent then
      { c with utxo := some (ManagedUtxo.discoverFromObserved observed.outpoint observed.accountId
        observed.scopeId observed.valueSats observed.confirmation) }
    else c
  | some u =>
    if u.onchainState = .spent then c
    else
      match observed.spendStatus with
      | .unknown => c
      | .spent spendingTxid => ⟨some (u.seenSpent spendingTxid timestamp), none⟩
      | .missing =>
        { c with utxo := some (u.seenMissing "Reserved UTXO explicitly reported as missing"
          timestamp) }
      | .unspent => { c with utxo := some (u.seenUnspent observed timestamp) }

/-- What it means for an output to be left out by a full snapshot. -/
def overlook (timestamp : ℕ) (c : Cell) : Cell :=
  match c.utxo with
  | none => c
  | some u =>
    if u.onchainState ≠ .spent ∧ u.availability ≠ .recovering ∧
        u.onchainState ≠ .spendingInFlight then
      { c with utxo := some (u.seenMissing "Reserved UTXO missing from full snapshot" timestamp) }
    else c

end Cell

namespace ReconciliationPlanner

variable {timestamp : ℕ} {o : OutPoint}

/-! ### The actions of one observation -/

/-- What the planner restores, or keeps, is the availability that was seen. -/
theorem getD_restoredUnspentAvailability {u : ManagedUtxo} (hu : u.onchainState ≠ .spent)
    (observed : ObservedUtxo) (mismatch : Bool) :
    (restoredUnspentAvailability u observed mismatch).getD u.availability =
      u.seenAvailability observed mismatch := by
  unfold restoredUnspentAvailability ManagedUtxo.seenAvailability
  grind

section Actions

variable (u : ManagedUtxo) (k : Option OperationLock)

theorem foldl_report (message : Option String) :
    (message.toList.map (ReconciliationAction.reportConflict o · timestamp)).foldl Cell.act
      ⟨some u, k⟩ =
    ⟨some { u with
      observationConflict :=
        message.elim u.observationConflict fun message => some ⟨message, timestamp⟩ }, k⟩ := by
  cases message <;> rfl

theorem foldl_availability (availability : Option Availability) :
    (availability.toList.map (ReconciliationAction.updateAvailability o)).foldl Cell.act
      ⟨some u, k⟩ =
    ⟨some { u with availability := availability.getD u.availability }, k⟩ := by
  cases availability <;> rfl

theorem foldl_clear (p : Prop) [Decidable p] :
    (if p then [ReconciliationAction.clearConflict o] else []).foldl Cell.act ⟨some u, k⟩ =
    ⟨some { u with observationConflict := if p then none else u.observationConflict }, k⟩ := by
  split_ifs <;> rfl

theorem foldl_onchain (p : Prop) [Decidable p] (newState : OnchainState)
    (h : p → u.onchainState.isSpending = false) :
    (if p then [ReconciliationAction.updateOnchainState o newState] else []).foldl Cell.act
      ⟨some u, k⟩ = ⟨some { u with onchainState := if p then newState else u.onchainState }, k⟩ := by
  split_ifs with hp
  · simp only [List.foldl_cons, List.foldl_nil, Cell.act, Option.map_some, h hp, Bool.not_false,
      if_true]
  · rfl

/-- The conflict of a contradicted output and what follows it. -/
theorem foldl_contradicted (message : String) (action : ReconciliationAction) :
    ((if u.availability = .reserved then
        [ReconciliationAction.reportConflict o message timestamp]
      else []) ++ [action]).foldl Cell.act ⟨some u, k⟩ =
    Cell.act ⟨some { u with observationConflict := u.contradicted message timestamp }, k⟩
      action := by
  unfold ManagedUtxo.contradicted
  split_ifs <;> rfl

variable {u} {observed : ObservedUtxo}

/-- The actions about an unspent output lead to `seenUnspent`. -/
theorem foldl_unspent (hs : observed.spendStatus = .unspent) (hu : u.onchainState ≠ .spent) :
    (planManaged timestamp u observed).foldl Cell.act ⟨some u, k⟩ =
      ⟨some (u.seenUnspent observed timestamp), k⟩ := by
  unfold planManaged
  simp only [hs, hu, if_false, List.foldl_append]
  rw [foldl_report, foldl_availability, foldl_clear, foldl_onchain]
  · unfold ManagedUtxo.seenUnspent
    simp only [Cell.mk.injEq, Option.some.injEq, ManagedUtxo.mk.injEq, and_true, true_and]
    refine ⟨?_, getD_restoredUnspentAvailability hu observed _, ?_⟩
    · by_cases hf : u.onchainState = .spendingInFlight
      · simp [hf]
      · by_cases hn : u.onchainState = observed.confirmation.onchainState <;> simp [hf, hn]
    · cases observedMismatchMessage u observed <;> cases u.observationConflict <;> simp
  · rintro ⟨hf, -⟩
    change u.onchainState.isSpending = false
    cases hst : u.onchainState <;> simp_all [OnchainState.isSpending]

/-- The actions of an observation of a managed output lead to what is observed. -/
theorem foldl_planManaged :
    (planManaged timestamp u observed).foldl Cell.act ⟨some u, k⟩ =
      Cell.observe timestamp observed ⟨some u, k⟩ := by
  unfold Cell.observe
  by_cases hu : u.onchainState = .spent
  · unfold planManaged
    cases observed.spendStatus <;> simp [hu]
  · simp only [hu, if_false]
    cases hs : observed.spendStatus with
    | unknown => simp [planManaged, hs]
    | unspent => exact foldl_unspent k hs hu
    | spent txid =>
      simp only [planManaged, hs, hu, ne_eq, not_false_eq_true, if_true]
      rw [foldl_contradicted]
      rfl
    | missing =>
      simp only [planManaged, hs, hu, ne_eq, not_false_eq_true, if_true]
      rw [foldl_contradicted]
      rfl

end Actions

theorem foldl_planObserved (observed : ObservedUtxo) (c : Cell) :
    (planObserved timestamp c.utxo observed).foldl Cell.act c = c.observe timestamp observed := by
  obtain ⟨utxo, k⟩ := c
  cases utxo with
  | some u => exact foldl_planManaged k
  | none => cases hs : observed.spendStatus <;> simp [planObserved, Cell.observe, hs, Cell.act]

theorem foldl_planUnmentioned (c : Cell) :
    (c.utxo.toList.flatMap (planUnmentioned timestamp)).foldl Cell.act c =
      c.overlook timestamp := by
  obtain ⟨utxo, k⟩ := c
  cases utxo with
  | none => rfl
  | some u =>
    simp only [Option.toList_some, List.flatMap_singleton, planUnmentioned, Cell.overlook]
    by_cases h : u.onchainState ≠ .spent ∧ u.availability ≠ .recovering ∧
      u.onchainState ≠ .spendingInFlight
    · rw [if_pos h, if_pos h, foldl_contradicted]
      rfl
    · rw [if_neg h, if_neg h, List.foldl_nil]

/-! ### The actions of a plan about one outpoint -/

/-- Blocks of actions that are about one outpoint each. -/
theorem filter_flatMap_outpoint {α : Type} (xs : List α) (key : α → OutPoint)
    (f : α → List ReconciliationAction) (hf : ∀ x ∈ xs, ∀ a ∈ f x, a.outpoint = key x) :
    (xs.flatMap f).filter (fun a => a.outpoint = o) =
      (xs.filter fun x => key x = o).flatMap f := by
  induction xs with
  | nil => rfl
  | cons x xs ih =>
    have hx : ∀ a ∈ f x, a.outpoint = key x := hf x List.mem_cons_self
    rw [List.flatMap_cons, List.filter_append, List.filter_cons,
      ih fun y hy => hf y (List.mem_cons_of_mem _ hy)]
    by_cases hk : key x = o
    · have hall : (f x).filter (fun a => a.outpoint = o) = f x :=
        List.filter_eq_self.mpr fun a ha => by simp [hx a ha, hk]
      simp [hall, hk]
    · have hnone : (f x).filter (fun a => a.outpoint = o) = [] :=
        List.filter_eq_nil_iff.mpr fun a ha => by simp [hx a ha, hk]
      simp [hnone, hk]

theorem outpoint_of_mem_planManaged {u : ManagedUtxo} {observed : ObservedUtxo}
    {a : ReconciliationAction} (h : a ∈ planManaged timestamp u observed) :
    a.outpoint = u.outpoint := by
  unfold planManaged at h
  cases hs : observed.spendStatus <;> simp only [hs] at h <;>
    grind [ReconciliationAction.outpoint]

theorem outpoint_of_mem_planObserved {managed : Option ManagedUtxo} {observed : ObservedUtxo}
    (hm : ∀ u, managed = some u → u.outpoint = observed.outpoint) {a : ReconciliationAction}
    (h : a ∈ planObserved timestamp managed observed) : a.outpoint = observed.outpoint := by
  cases managed with
  | some u => exact (outpoint_of_mem_planManaged h).trans (hm u rfl)
  | none =>
    cases hs : observed.spendStatus <;> simp only [planObserved, hs] at h <;>
      grind [ReconciliationAction.outpoint]

theorem outpoint_of_mem_planUnmentioned {u : ManagedUtxo} {a : ReconciliationAction}
    (h : a ∈ planUnmentioned timestamp u) : a.outpoint = u.outpoint := by
  unfold planUnmentioned at h
  grind [ReconciliationAction.outpoint]

/-- The planner never claims a spend by `UpdateOnchainState`. -/
theorem planFor_withoutSpent (utxos : List ManagedUtxo) (snapshot : ObservationSnapshot) :
    Ledger.plansWithoutSpent (planFor utxos snapshot) := by
  intro o h
  have hconf := ObservedConfirmation.onchainState_ne_spent
  have hmanaged : ∀ u observed,
      ReconciliationAction.updateOnchainState o .spent ∉ planManaged snapshot.timestamp u observed := by
    intro u observed h
    unfold planManaged at h
    cases hs : observed.spendStatus <;> simp only [hs] at h <;> grind
  rcases List.mem_append.mp h with h | h
  · obtain ⟨observed, -, h⟩ := List.mem_flatMap.mp h
    unfold planObserved at h
    split at h
    · cases hs : observed.spendStatus <;> simp only [hs] at h <;> grind
    · exact hmanaged _ _ h
  · split_ifs at h
    · obtain ⟨u, -, h⟩ := List.mem_flatMap.mp h
      unfold planUnmentioned at h
      grind
    · exact List.not_mem_nil h

end ReconciliationPlanner

/-! ## A snapshot -/

namespace ObservationSnapshot

/-- What a snapshot says about an outpoint. -/
def about (snapshot : ObservationSnapshot) (o : OutPoint) : List ObservedUtxo :=
  snapshot.utxos.filter fun observed => observed.outpoint = o

/-- Each outpoint is mentioned at most once. -/
def Distinct (snapshot : ObservationSnapshot) : Prop := (snapshot.utxos.map (·.outpoint)).Nodup

instance (snapshot : ObservationSnapshot) : Decidable snapshot.Distinct :=
  inferInstanceAs (Decidable (List.Nodup _))

theorem about_outpoint {snapshot : ObservationSnapshot} {o : OutPoint} {observed : ObservedUtxo}
    (h : observed ∈ snapshot.about o) : observed.outpoint = o := by
  simpa using (List.mem_filter.mp h).2

/-- At most one observation of a distinct snapshot is about an outpoint. -/
theorem Distinct.about {snapshot : ObservationSnapshot} (h : snapshot.Distinct) (o : OutPoint) :
    snapshot.about o = [] ∨ ∃ observed, snapshot.about o = [observed] := by
  have hnd : ((snapshot.about o).map (·.outpoint)).Nodup :=
    h.sublist (List.filter_sublist.map _)
  match hl : snapshot.about o with
  | [] => exact .inl rfl
  | [observed] => exact .inr ⟨observed, rfl⟩
  | a :: b :: rest =>
    have ha : a.outpoint = o := about_outpoint (hl ▸ List.mem_cons_self)
    have hb : b.outpoint = o := about_outpoint (hl ▸ List.mem_cons_of_mem _ List.mem_cons_self)
    simp [hl, ha, hb] at hnd

end ObservationSnapshot

namespace Cell

/-- A full snapshot overlooks what it does not mention. -/
def leaveOut (snapshot : ObservationSnapshot) (c : Cell) : Cell :=
  if snapshot.scope = .full then c.overlook snapshot.timestamp else c

/-- What a snapshot that mentions each outpoint at most once makes of a cell. -/
def reconcile (snapshot : ObservationSnapshot) (o : OutPoint) (c : Cell) : Cell :=
  match snapshot.about o with
  | [] => c.leaveOut snapshot
  | observed :: _ => c.observe snapshot.timestamp observed

/-- The actions of a snapshot about `o`, planned from the output `planned`. -/
def planAbout (snapshot : ObservationSnapshot) (o : OutPoint) (planned : Option ManagedUtxo) :
    List ReconciliationAction :=
  (snapshot.about o).flatMap (ReconciliationPlanner.planObserved snapshot.timestamp planned) ++
    (if snapshot.scope = .full ∧ snapshot.about o = [] then
      planned.toList.flatMap (ReconciliationPlanner.planUnmentioned snapshot.timestamp)
    else [])

/-- What becomes of a cell to which the actions planned from `planned` are applied. -/
def reconcileFrom (snapshot : ObservationSnapshot) (o : OutPoint) (planned : Option ManagedUtxo)
    (c : Cell) : Cell :=
  (planAbout snapshot o planned).foldl act c

/-- Planned from its own output, a cell is reconciled. -/
theorem reconcileFrom_utxo {snapshot : ObservationSnapshot} (hs : snapshot.Distinct) (o : OutPoint)
    (c : Cell) : c.reconcileFrom snapshot o c.utxo = c.reconcile snapshot o := by
  unfold reconcileFrom planAbout reconcile leaveOut
  rcases hs.about o with hnone | ⟨observed, hone⟩
  · simp only [hnone, List.flatMap_nil, List.nil_append, and_true]
    split_ifs
    · exact ReconciliationPlanner.foldl_planUnmentioned _
    · rfl
  · simp only [hone, List.flatMap_singleton, List.cons_ne_nil, and_false, if_false,
      List.append_nil]
    exact ReconciliationPlanner.foldl_planObserved observed _

end Cell

/-! ### The same snapshot again -/

namespace ManagedUtxo

/-- Once an output was seen unspent, its availability is what the observation asks for. -/
theorem seenAvailability_seenUnspent (u : ManagedUtxo) (observed : ObservedUtxo) (timestamp : ℕ)
    {mismatch : Bool}
    (h : (ReconciliationPlanner.observedMismatchMessage u observed).isSome = mismatch) :
    (u.seenUnspent observed timestamp).seenAvailability observed mismatch =
      u.seenAvailability observed mismatch := by
  have hspending := observed.confirmation.onchainState_ne_spendingInFlight
  have havailability : observed.confirmation.availability = .blockedByPolicy ∨
      observed.confirmation.availability = .selectable := by
    cases observed.confirmation <;> simp [ObservedConfirmation.availability]
  unfold seenUnspent
  simp only [h]
  unfold seenAvailability
  by_cases hf : u.onchainState = .spendingInFlight
  · simp [hf]
  · by_cases hb : u.operationBinding.isSome = true
    · simp only [hf, hspending, hb, if_false, if_true]
      by_cases hr : u.availability = .recovering
      · simp [hr]
      · simp [hr]
    · cases mismatch with
      | true => simp [hf, hspending, hb]
      | false =>
        simp only [hf, hspending, hb, Bool.false_eq_true, if_false]
        split_ifs with hrestore hagain
        · rfl
        · exact (hagain (.inr havailability)).elim
        · rfl

/-- An output that was seen unspent is not changed by seeing it once more. -/
theorem seenUnspent_seenUnspent (u : ManagedUtxo) (observed : ObservedUtxo) (timestamp : ℕ) :
    (u.seenUnspent observed timestamp).seenUnspent observed timestamp =
      u.seenUnspent observed timestamp := by
  have hagain := u.seenAvailability_seenUnspent observed timestamp rfl
  refine ManagedUtxo.mk.injEq _ _ _ _ _ _ _ _ _ _ _ _ _ _ _ _ _ _ ▸ ?_
  refine ⟨rfl, rfl, rfl, rfl, ?_, hagain, rfl, rfl, rfl⟩
  by_cases hf : u.onchainState = .spendingInFlight
  · simp [seenUnspent, hf]
  · simp [seenUnspent, hf, ObservedConfirmation.onchainState_ne_spendingInFlight]

theorem seenUnspent_ne_spent (u : ManagedUtxo) (observed : ObservedUtxo) (timestamp : ℕ) :
    (u.seenUnspent observed timestamp).onchainState ≠ .spent := by
  unfold seenUnspent
  simp only
  split_ifs
  · decide
  · exact observed.confirmation.onchainState_ne_spent

theorem seenMissing_seenMissing (u : ManagedUtxo) (message : String) (timestamp : ℕ) :
    (u.seenMissing message timestamp).seenMissing message timestamp =
      u.seenMissing message timestamp := rfl

/-- A new output is as the observation that discovered it says. -/
theorem seenUnspent_discoverFromObserved (observed : ObservedUtxo) (timestamp : ℕ) :
    (discoverFromObserved observed.outpoint observed.accountId observed.scopeId observed.valueSats
      observed.confirmation).seenUnspent observed timestamp =
        discoverFromObserved observed.outpoint observed.accountId observed.scopeId
          observed.valueSats observed.confirmation := by
  unfold seenUnspent ReconciliationPlanner.observedMismatchMessage seenAvailability
    discoverFromObserved
  cases observed.confirmation <;>
    simp [ObservedConfirmation.onchainState, ObservedConfirmation.availability]

end ManagedUtxo

namespace Cell

theorem observe_observe (timestamp : ℕ) (observed : ObservedUtxo) (c : Cell) :
    (c.observe timestamp observed).observe timestamp observed = c.observe timestamp observed := by
  obtain ⟨utxo, k⟩ := c
  cases utxo with
  | none =>
    unfold observe
    by_cases hs : observed.spendStatus = .unspent
    · simp only [hs, if_true, ManagedUtxo.seenUnspent_discoverFromObserved]
      exact ite_self _
    · simp [hs]
  | some u =>
    unfold observe
    by_cases hu : u.onchainState = .spent
    · simp [hu]
    · simp only [hu, if_false]
      cases hs : observed.spendStatus with
      | unknown => simp [hu]
      | spent txid => simp [ManagedUtxo.seenSpent, ManagedUtxo.markSpent]
      | missing =>
        simp only [ManagedUtxo.seenMissing_seenMissing]
        exact ite_self _
      | unspent =>
        simp only [u.seenUnspent_ne_spent, ManagedUtxo.seenUnspent_seenUnspent, if_false]

theorem leaveOut_leaveOut (snapshot : ObservationSnapshot) (c : Cell) :
    (c.leaveOut snapshot).leaveOut snapshot = c.leaveOut snapshot := by
  unfold leaveOut
  split_ifs
  · obtain ⟨utxo, k⟩ := c
    cases utxo with
    | none => rfl
    | some u =>
      unfold overlook
      simp only
      split_ifs with h
      · simp [ManagedUtxo.seenMissing, ManagedUtxo.markMissing]
      · simp [h]
  · rfl

/-- A cell that was reconciled is not changed by the same snapshot. -/
theorem reconcile_reconcile (snapshot : ObservationSnapshot) (o : OutPoint) (c : Cell) :
    (c.reconcile snapshot o).reconcile snapshot o = c.reconcile snapshot o := by
  unfold reconcile
  cases snapshot.about o with
  | nil => exact leaveOut_leaveOut snapshot c
  | cons observed _ => exact observe_observe _ observed c

end Cell

namespace Ledger

variable {l : Ledger} {utxos : List ManagedUtxo}

/-- The planner finds the output that is recorded under an outpoint. -/
theorem find?_outputs (hk : l.WellKeyed) (hu : ∀ u, u ∈ utxos ↔ ∃ o, l.utxo o = some u)
    (o : OutPoint) : utxos.find? (fun u => u.outpoint = o) = l.utxo o := by
  cases hf : utxos.find? (fun u => u.outpoint = o) with
  | none =>
    cases ho : l.utxo o with
    | none => rfl
    | some u =>
      have hno := List.find?_eq_none.mp hf u ((hu u).mpr ⟨o, ho⟩)
      simp [hk.utxo o u ho] at hno
  | some u =>
    have hout : u.outpoint = o := by simpa using List.find?_some hf
    obtain ⟨o', ho'⟩ := (hu u).mp (List.mem_of_find?_eq_some hf)
    rw [← hout, hk.utxo o' u ho', ho']

/-- The outputs under one outpoint. -/
theorem filter_outputs (hk : l.WellKeyed) (hnd : utxos.Nodup)
    (hu : ∀ u, u ∈ utxos ↔ ∃ o, l.utxo o = some u) (o : OutPoint) :
    utxos.filter (fun u => u.outpoint = o) = (l.utxo o).toList := by
  have hmem : ∀ u, u ∈ utxos.filter (fun u => u.outpoint = o) ↔ l.utxo o = some u := by
    intro u
    rw [List.mem_filter, hu, decide_eq_true_eq]
    constructor
    · rintro ⟨⟨o', ho'⟩, rfl⟩
      rw [hk.utxo o' u ho', ho']
    · exact fun ho => ⟨⟨o, ho⟩, hk.utxo o u ho⟩
  have hperm : (utxos.filter fun u => u.outpoint = o).Perm (l.utxo o).toList := by
    refine (List.perm_ext_iff_of_nodup (hnd.filter _) ?_).mpr fun u => ?_
    · cases l.utxo o <;> simp
    · rw [hmem]
      simp [eq_comm]
  cases ho : l.utxo o with
  | none => simpa [ho] using hperm
  | some u => simpa [ho] using hperm

/-- The actions of a plan about an outpoint are planned from its own output. -/
theorem actionsOn_planFor (hk : l.WellKeyed) (hnd : utxos.Nodup)
    (hu : ∀ u, u ∈ utxos ↔ ∃ o, l.utxo o = some u) (snapshot : ObservationSnapshot)
    (o : OutPoint) :
    (ReconciliationPlanner.planFor utxos snapshot).actionsOn o =
      Cell.planAbout snapshot o (l.utxo o) := by
  have hfind := find?_outputs hk hu
  unfold ReconcilePlan.actionsOn ReconciliationPlanner.planFor Cell.planAbout
  rw [List.filter_append]
  refine congrArg₂ _ ?_ ?_
  · rw [ReconciliationPlanner.filter_flatMap_outpoint _ (·.outpoint)]
    · refine List.flatMap_congr fun observed hobserved => ?_
      rw [hfind, ObservationSnapshot.about_outpoint hobserved]
    · intro observed _ a ha
      refine ReconciliationPlanner.outpoint_of_mem_planObserved (fun u hu' => ?_) ha
      rw [hfind] at hu'
      exact hk.utxo _ u hu'
  · by_cases hfull : snapshot.scope = .full
    · simp only [hfull, if_true, true_and]
      rw [ReconciliationPlanner.filter_flatMap_outpoint _ (·.outpoint), filter_outputs hk hnd hu]
      · cases ho : l.utxo o with
        | none => simp
        | some u =>
          have hmention : snapshot.utxos.any (fun x => x.outpoint = u.outpoint) = false ↔
              snapshot.about o = [] := by
            rw [hk.utxo o u ho]
            unfold ObservationSnapshot.about
            simp [List.filter_eq_nil_iff]
          simp only [Option.toList_some, List.flatMap_singleton]
          by_cases hnone : snapshot.about o = []
          · rw [if_pos hnone, if_neg]
            rw [Bool.not_eq_true]
            exact hmention.mpr hnone
          · rw [if_neg hnone, if_pos]
            rw [← Bool.not_eq_false]
            exact mt hmention.mp hnone
      · intro u _ a ha
        split_ifs at ha
        · exact (List.not_mem_nil ha).elim
        · exact ReconciliationPlanner.outpoint_of_mem_planUnmentioned ha
    · simp [hfull]

/-- Planning for a distinct snapshot and applying the plan is reconciling every cell. -/
theorem applyReconciliation_planFor (hk : l.WellKeyed) (hnd : utxos.Nodup)
    (hu : ∀ u, u ∈ utxos ↔ ∃ o, l.utxo o = some u) {snapshot : ObservationSnapshot}
    (hs : snapshot.Distinct) :
    l.applyReconciliation (ReconciliationPlanner.planFor utxos snapshot) =
      { l with cell := fun o => (l.cell o).reconcile snapshot o }.nextTick := by
  unfold applyReconciliation
  refine congrArg nextTick (Ledger.ext rfl rfl (funext fun o => ?_) rfl rfl rfl)
  change ((ReconciliationPlanner.planFor utxos snapshot).actionsOn o).foldl Cell.act (l.cell o) =
    (l.cell o).reconcile snapshot o
  rw [actionsOn_planFor hk hnd hu]
  exact Cell.reconcileFrom_utxo hs o (l.cell o)

end Ledger

end Txoscope
