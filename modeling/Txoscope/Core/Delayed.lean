import Txoscope.Core.Planning

/-!
# Plans that are applied late

A plan is made of the outputs as they were listed and applied to the outputs as they are by then.
`standing` is a record without what such a plan may get wrong: its availability and its conflict.
Up to `standing`, a plan that is applied late does what a plan made on the spot would do, as long as
the output only `Continues` meanwhile (`Continues.standing_reconcileFrom`), and reconciling a cell
commutes with releasing and advancing an operation. Two plans that are applied over each other keep
at least the `ownership` of a serial order (`reconcileFrom_reconcile`).
-/

namespace Txoscope

/-! ## What a late plan leaves alone -/

namespace ManagedUtxo

/-- The record with its availability and its conflict blanked. -/
def standing (u : ManagedUtxo) : ManagedUtxo :=
  { u with availability := .recovering, observationConflict := none }

/-- The record with everything blanked that an observation may change in an output of anyone. -/
def ownership (u : ManagedUtxo) : ManagedUtxo := { u.standing with onchainState := .unknown }

@[simp] theorem standing_onchainState (u : ManagedUtxo) :
    u.standing.onchainState = u.onchainState := rfl

theorem standing_releaseIfBound (u : ManagedUtxo) (id : OperationId) :
    (u.releaseIfBound id).standing = (u.standing.releaseIfBound id).standing := by
  unfold releaseIfBound
  have hbound : u.standing.boundTo id = u.boundTo id := rfl
  rw [hbound]
  split_ifs <;> rfl

end ManagedUtxo

namespace Cell

/-- The cell with the availability and the conflict of its output blanked. -/
def standing (c : Cell) : Cell := { c with utxo := c.utxo.map ManagedUtxo.standing }

/-- The cell with the on-chain state of its output blanked as well. -/
def ownership (c : Cell) : Cell := { c with utxo := c.utxo.map ManagedUtxo.ownership }

/-- The on-chain state of the output. -/
def onchainState (c : Cell) : Option OnchainState := c.utxo.map (·.onchainState)

theorem ownership_of_standing {c d : Cell} (h : c.standing = d.standing) :
    c.ownership = d.ownership := by
  obtain ⟨hutxo, hlock⟩ := Cell.mk.inj h
  refine Cell.ext ?_ hlock
  have hmap := congrArg (Option.map fun u : ManagedUtxo => { u with onchainState := .unknown }) hutxo
  rw [Option.map_map, Option.map_map] at hmap
  exact hmap

theorem onchainState_of_standing {c d : Cell} (h : c.standing = d.standing) :
    c.onchainState = d.onchainState := by
  obtain ⟨hutxo, -⟩ := Cell.mk.inj h
  have hmap := congrArg (Option.map ManagedUtxo.onchainState) hutxo
  rw [Option.map_map, Option.map_map] at hmap
  exact hmap

/-! ### Writes up to standing -/

theorem standing_release (id : OperationId) (c : Cell) :
    (c.release id).standing = (c.standing.release id).standing := by
  refine Cell.ext ?_ rfl
  change (c.utxo.map _).map _ = ((c.utxo.map _).map _).map _
  simp only [Option.map_map]
  exact Option.map_congr fun u _ => u.standing_releaseIfBound id

theorem standing_act (a : ReconciliationAction) (c : Cell) :
    (c.act a).standing = (c.standing.act a).standing := by
  obtain ⟨utxo, k⟩ := c
  cases utxo with
  | none => cases a <;> rfl
  | some u =>
    cases a with
    | updateOnchainState _ newState =>
      cases hs : u.onchainState.isSpending <;> simp [act, standing, hs] <;> rfl
    | discoverNew | refreshObserved | markSpent | reportConflict | clearConflict
      | updateAvailability | markMissing => rfl

section Congr

variable {c d : Cell} (h : c.standing = d.standing)

include h

theorem standing_release_congr (id : OperationId) :
    (c.release id).standing = (d.release id).standing := by
  rw [standing_release, h, ← standing_release]

theorem standing_act_congr (a : ReconciliationAction) :
    (c.act a).standing = (d.act a).standing := by
  rw [standing_act, h, ← standing_act]

theorem standing_foldl_congr (as : List ReconciliationAction) :
    (as.foldl act c).standing = (as.foldl act d).standing := by
  induction as generalizing c d with
  | nil => exact h
  | cons a as ih => exact ih (standing_act_congr h a)

end Congr

end Cell

/-! ## Plans made of another record -/

namespace ReconciliationPlanner

/-- The actions of an observation that change more than an availability or a conflict. -/
def moving (planned : Option ManagedUtxo) (observed : ObservedUtxo) : List ReconciliationAction :=
  match planned, observed.spendStatus with
  | none, .unspent => [.discoverNew observed]
  | some u, .spent spendingTxid =>
    if u.onchainState = .spent then [] else [.markSpent u.outpoint spendingTxid]
  | some u, .unspent =>
    if u.onchainState.isSpending ∨ u.onchainState = observed.confirmation.onchainState then []
    else [.updateOnchainState u.outpoint observed.confirmation.onchainState]
  | _, _ => []

end ReconciliationPlanner

/-- An action that changes nothing but an availability or a conflict. -/
def ReconciliationAction.Idle : ReconciliationAction → Prop
  | refreshObserved _ | reportConflict _ _ _ | clearConflict _ | updateAvailability _ _
  | markMissing _ => True
  | _ => False

namespace Cell

variable {c d : Cell} {snapshot other : ObservationSnapshot} {o : OutPoint}

theorem standing_act_idle {a : ReconciliationAction} (h : a.Idle) (c : Cell) :
    (c.act a).standing = c.standing := by
  obtain ⟨utxo, k⟩ := c
  cases a <;> first | exact h.elim | (cases utxo <;> rfl)

theorem standing_foldl_idle {as : List ReconciliationAction} (h : ∀ a ∈ as, a.Idle) (c : Cell) :
    (as.foldl act c).standing = c.standing := by
  induction as generalizing c with
  | nil => rfl
  | cons a as ih =>
    rw [List.forall_mem_cons] at h
    exact (ih h.2 _).trans (standing_act_idle h.1 c)

/-- Of actions that follow idle ones, only they matter. -/
theorem standing_foldl_append {as bs : List ReconciliationAction} (h : ∀ a ∈ as, a.Idle)
    (c : Cell) : ((as ++ bs).foldl act c).standing = (bs.foldl act c).standing := by
  rw [List.foldl_append]
  exact standing_foldl_congr (standing_foldl_idle h c) bs

theorem standing_foldl_planManaged (timestamp : ℕ) (u : ManagedUtxo) (observed : ObservedUtxo)
    (c : Cell) :
    ((ReconciliationPlanner.planManaged timestamp u observed).foldl act c).standing =
      ((ReconciliationPlanner.moving (some u) observed).foldl act c).standing := by
  have hreport : ∀ message, ∀ a ∈ (if u.availability = .reserved then
      [ReconciliationAction.reportConflict u.outpoint message timestamp] else []), a.Idle := by
    intro message a ha
    split_ifs at ha
    · rw [List.mem_singleton.mp ha]
      trivial
    · exact (List.not_mem_nil ha).elim
  unfold ReconciliationPlanner.planManaged ReconciliationPlanner.moving
  by_cases hu : u.onchainState = .spent
  · cases observed.spendStatus <;> simp [hu, OnchainState.isSpending]
  · cases observed.spendStatus with
    | unknown => rfl
    | spent txid =>
      simp only [hu, ne_eq, not_false_eq_true, if_true, if_false]
      exact standing_foldl_append (hreport _) c
    | missing =>
      simp only [hu, ne_eq, not_false_eq_true, if_true]
      refine (standing_foldl_append (hreport _) c).trans ?_
      exact standing_act_idle (a := .markMissing u.outpoint) trivial c
    | unspent =>
      have hidle : ∀ a ∈ ((ReconciliationPlanner.observedMismatchMessage u observed).toList.map
            (ReconciliationAction.reportConflict u.outpoint · timestamp) ++
          (ReconciliationPlanner.restoredUnspentAvailability u observed
            (ReconciliationPlanner.observedMismatchMessage u observed).isSome).toList.map
            (ReconciliationAction.updateAvailability u.outpoint) ++
          (if u.observationConflict.isSome ∧
              ReconciliationPlanner.observedMismatchMessage u observed = none then
            [ReconciliationAction.clearConflict u.outpoint] else [])), a.Idle := by
        simp only [List.forall_mem_append, List.forall_mem_map]
        refine ⟨⟨fun _ _ => trivial, fun _ _ => trivial⟩, fun a ha => ?_⟩
        split_ifs at ha
        · rw [List.mem_singleton.mp ha]
          trivial
        · exact (List.not_mem_nil ha).elim
      simp only [hu, if_false]
      refine (standing_foldl_append hidle c).trans ?_
      congr 2
      cases hst : u.onchainState <;> simp_all [OnchainState.isSpending]

theorem standing_foldl_planObserved (timestamp : ℕ) (planned : Option ManagedUtxo)
    (observed : ObservedUtxo) (c : Cell) :
    ((ReconciliationPlanner.planObserved timestamp planned observed).foldl act c).standing =
      ((ReconciliationPlanner.moving planned observed).foldl act c).standing := by
  cases planned with
  | some u => exact standing_foldl_planManaged timestamp u observed c
  | none =>
    unfold ReconciliationPlanner.planObserved ReconciliationPlanner.moving
    cases observed.spendStatus <;> rfl

/-- Up to standing, what a full snapshot leaves out is not changed. -/
theorem standing_foldl_planUnmentioned (timestamp : ℕ) (planned : Option ManagedUtxo) (c : Cell) :
    ((planned.toList.flatMap (ReconciliationPlanner.planUnmentioned timestamp)).foldl act
      c).standing = c.standing := by
  refine standing_foldl_idle (fun a ha => ?_) c
  obtain ⟨u, -, ha⟩ := List.mem_flatMap.mp ha
  unfold ReconciliationPlanner.planUnmentioned at ha
  split_ifs at ha
  · rcases List.mem_append.mp ha with ha | ha <;> rw [List.mem_singleton.mp ha] <;> trivial
  · rw [List.nil_append, List.mem_singleton] at ha
    rw [ha]
    trivial
  · exact (List.not_mem_nil ha).elim

/-- Up to standing, an outpoint that a snapshot does not mention is not changed. -/
theorem standing_reconcileFrom_of_nil (h : snapshot.about o = []) (planned : Option ManagedUtxo)
    (c : Cell) : (c.reconcileFrom snapshot o planned).standing = c.standing := by
  unfold reconcileFrom planAbout
  rw [h, List.flatMap_nil, List.nil_append]
  split_ifs
  · exact standing_foldl_planUnmentioned _ planned c
  · rfl

/-- Up to standing, an observation does what its moving actions do. -/
theorem standing_reconcileFrom_of_singleton {observed : ObservedUtxo}
    (h : snapshot.about o = [observed]) (planned : Option ManagedUtxo) (c : Cell) :
    (c.reconcileFrom snapshot o planned).standing =
      ((ReconciliationPlanner.moving planned observed).foldl act c).standing := by
  unfold reconcileFrom planAbout
  rw [h, List.flatMap_singleton, if_neg fun h => List.cons_ne_nil _ _ h.2, List.append_nil]
  exact standing_foldl_planObserved _ planned observed c

end Cell

/-! ## An output that only moves on -/

/-- Nothing happened to the on-chain state but that the output may have been sent. -/
def ManagedUtxo.Continues (u v : ManagedUtxo) : Prop :=
  v.onchainState = u.onchainState ∨ u.onchainState ≠ .spent ∧ v.onchainState = .spendingInFlight

theorem ManagedUtxo.Continues.trans {u v w : ManagedUtxo} (h : u.Continues v)
    (h' : v.Continues w) : u.Continues w := by
  unfold Continues at *
  rcases h with h | ⟨hu, hv⟩
  · rwa [h] at h'
  · rcases h' with h' | ⟨-, hw⟩
    · exact .inr ⟨hu, h'.trans hv⟩
    · exact .inr ⟨hu, hw⟩

namespace ManagedUtxo

/-- Up to standing, an advance writes the phase, and sends the output in some of the phases. -/
theorem standing_advanceIfBound_of_bound {u : ManagedUtxo} {id : OperationId}
    (h : u.boundTo id = true) (phase : OperationPhase) :
    (u.advanceIfBound id phase).standing =
      { u.standing with
        operationBinding := u.operationBinding.map fun b => { b with phase }
        onchainState := if phase.startsSpending = true ∧ u.onchainState ≠ .spent then
            .spendingInFlight
          else u.onchainState } := by
  obtain ⟨b, hb, -⟩ := boundTo_iff.mp h
  unfold advanceIfBound advanceBinding
  rw [if_pos h, hb]
  cases phase.startsSpending with
  | true =>
    simp only [if_true, true_and, Option.map_some]
    rfl
  | false => rfl

theorem continues_advanceIfBound (u : ManagedUtxo) (id : OperationId) (phase : OperationPhase) :
    u.Continues (u.advanceIfBound id phase) := by
  cases h : u.boundTo id with
  | false =>
    rw [advanceIfBound_of_free h]
    exact .inl rfl
  | true =>
    have hstate := congrArg ManagedUtxo.onchainState (standing_advanceIfBound_of_bound h phase)
    unfold Continues
    rw [← standing_onchainState, hstate]
    dsimp only
    split_ifs with hsent
    · exact .inr ⟨hsent.2, rfl⟩
    · exact .inl rfl

/-- A binding does not matter to an output that was spent. -/
theorem standing_markSpent_releaseIfBound (u : ManagedUtxo) (id : OperationId) :
    (u.releaseIfBound id).markSpent.standing = u.markSpent.standing := by
  unfold releaseIfBound
  split_ifs <;> rfl

/-- The on-chain state that an action sets in an output nobody has sent. -/
def withOnchainState (u : ManagedUtxo) (newState : OnchainState) : ManagedUtxo :=
  if !u.onchainState.isSpending then { u with onchainState := newState } else u

theorem boundTo_withOnchainState (u : ManagedUtxo) (newState : OnchainState) (id : OperationId) :
    (u.withOnchainState newState).boundTo id = u.boundTo id := by
  unfold withOnchainState
  split_ifs <;> rfl

theorem standing_withOnchainState_releaseIfBound (u : ManagedUtxo) (id : OperationId)
    (newState : OnchainState) :
    ((u.withOnchainState newState).releaseIfBound id).standing =
      ((u.releaseIfBound id).withOnchainState newState).standing := by
  cases h : u.boundTo id with
  | false =>
    have h' := (u.boundTo_withOnchainState newState id).trans h
    rw [releaseIfBound_of_free h, releaseIfBound_of_free h']
  | true =>
    have h' := (u.boundTo_withOnchainState newState id).trans h
    unfold releaseIfBound
    rw [if_pos h, if_pos h']
    unfold withOnchainState
    have hstate : u.releaseBinding.onchainState = u.onchainState := rfl
    rw [hstate]
    split_ifs <;> rfl

end ManagedUtxo

/-- The output is there in both cells or in neither, and it only moved on. -/
def Cell.Continues (c d : Cell) : Prop := Option.Rel ManagedUtxo.Continues c.utxo d.utxo

namespace Cell

variable {c d e : Cell} {snapshot other : ObservationSnapshot} {o : OutPoint}

theorem Continues.refl (c : Cell) : c.Continues c := by
  unfold Continues
  cases c.utxo with
  | none => exact .none
  | some u => exact .some (.inl rfl)

theorem Continues.trans (h : c.Continues d) (h' : d.Continues e) : c.Continues e := by
  unfold Continues at *
  generalize c.utxo = u at h
  generalize d.utxo = v at h h'
  generalize e.utxo = w at h'
  cases h with
  | none =>
    cases h'
    exact .none
  | some h =>
    cases h' with
    | some h' => exact .some (h.trans h')

theorem Continues.map {f : ManagedUtxo → ManagedUtxo} (h : ∀ u : ManagedUtxo, u.Continues (f u))
    (c : Cell) (k : Option OperationLock) : c.Continues ⟨c.utxo.map f, k⟩ := by
  unfold Continues
  cases c.utxo with
  | none => exact .none
  | some u => exact .some (h u)

theorem continues_release (id : OperationId) (c : Cell) : c.Continues (c.release id) :=
  .map (fun u => .inl (u.releaseIfBound_onchainState id)) c _

theorem continues_advance (id : OperationId) (phase : OperationPhase) (c : Cell) :
    c.Continues (c.advance id phase) :=
  .map (fun u => u.continues_advanceIfBound id phase) c _

theorem continues_hold (batch : StateBatch) (tick : ℕ) (purpose : LockPurpose) (c : Cell) :
    c.Continues (c.hold batch tick purpose) := by
  unfold hold
  split
  · exact .refl c
  · split_ifs
    · exact .refl c
    · rename_i hu _
      unfold Continues
      rw [hu]
      exact .some (.inl rfl)

/-- What moves an output that only moved on is what was planned before. -/
theorem Continues.foldl_moving (h : c.Continues d) (observed : ObservedUtxo) :
    (ReconciliationPlanner.moving c.utxo observed).foldl act d =
      (ReconciliationPlanner.moving d.utxo observed).foldl act d := by
  obtain ⟨utxo, k⟩ := c
  obtain ⟨utxo', k'⟩ := d
  unfold Continues at h
  cases h with
  | none => rfl
  | @some u v h =>
    unfold ReconciliationPlanner.moving
    rcases h with h | ⟨hu, hv⟩
    · cases observed.spendStatus with
      | unknown | missing => rfl
      | spent txid =>
        simp only [h]
        split_ifs <;> rfl
      | unspent =>
        simp only [h]
        split_ifs <;> rfl
    · cases observed.spendStatus with
      | unknown | missing => rfl
      | spent txid => simp [hu, hv, act]
      | unspent =>
        -- an output in flight is not moved by a confirmation
        have hspending : v.onchainState.isSpending = true := by
          rw [hv]
          rfl
        simp only [hspending, true_or, if_true, List.foldl_nil]
        split_ifs
        · rfl
        · simp [act, hspending]

/-- Applied late to an output that only moved on, a plan does what a plan made on the spot does. -/
theorem Continues.standing_reconcileFrom (h : c.Continues d) (hs : snapshot.Distinct)
    (o : OutPoint) :
    (d.reconcileFrom snapshot o c.utxo).standing = (d.reconcile snapshot o).standing := by
  rw [← reconcileFrom_utxo hs]
  rcases hs.about o with hnone | ⟨observed, hone⟩
  · rw [standing_reconcileFrom_of_nil hnone, standing_reconcileFrom_of_nil hnone]
  · rw [standing_reconcileFrom_of_singleton hone, standing_reconcileFrom_of_singleton hone,
      h.foldl_moving]

/-! ### Writes next to a plan -/

theorem standing_release_act (id : OperationId) (a : ReconciliationAction) (c : Cell) :
    ((c.act a).release id).standing = ((c.release id).act a).standing := by
  by_cases hidle : a.Idle
  · rw [standing_act_idle hidle (c.release id)]
    exact standing_release_congr (standing_act_idle hidle c) id
  obtain ⟨utxo, k⟩ := c
  cases utxo with
  | none => cases a <;> rfl
  | some u =>
    cases a with
    | refreshObserved | reportConflict | clearConflict | updateAvailability | markMissing =>
      exact (hidle trivial).elim
    | discoverNew observed => rfl
    | markSpent o txid =>
      have hfree : u.markSpent.releaseIfBound id = u.markSpent :=
        ManagedUtxo.releaseIfBound_of_free (ManagedUtxo.not_boundTo_of_none rfl)
      refine Cell.ext (congrArg some ?_) rfl
      exact (congrArg _ hfree).trans (u.standing_markSpent_releaseIfBound id).symm
    | updateOnchainState o newState =>
      exact Cell.ext (congrArg some (u.standing_withOnchainState_releaseIfBound id newState)) rfl

theorem standing_release_foldl (id : OperationId) (as : List ReconciliationAction) (c : Cell) :
    ((as.foldl act c).release id).standing = (as.foldl act (c.release id)).standing := by
  induction as generalizing c with
  | nil => rfl
  | cons a as ih => exact (ih _).trans (standing_foldl_congr (standing_release_act id a c) as)

/-- Up to standing, reconciling an output commutes with releasing it. -/
theorem standing_release_reconcile (hs : snapshot.Distinct) (id : OperationId) (o : OutPoint)
    (c : Cell) : ((c.reconcile snapshot o).release id).standing =
      ((c.release id).reconcile snapshot o).standing := by
  rw [← (continues_release id c).standing_reconcileFrom hs, ← reconcileFrom_utxo hs]
  exact standing_release_foldl id _ c

end Cell

/-! ## Two plans -/

theorem ObservedConfirmation.isSpending_onchainState (confirmation : ObservedConfirmation) :
    confirmation.onchainState.isSpending = false := by
  cases confirmation <;> rfl

namespace ObservationSnapshot

/-- The snapshot is incremental and has no observation of `o`. -/
def Silent (snapshot : ObservationSnapshot) (o : OutPoint) : Prop :=
  snapshot.scope = .incremental ∧ snapshot.about o = []

end ObservationSnapshot

namespace Cell

variable {c d e : Cell} {snapshot other : ObservationSnapshot} {o : OutPoint}

/-- A snapshot does nothing to an outpoint it is silent about. -/
theorem reconcileFrom_of_silent (h : snapshot.Silent o) (planned : Option ManagedUtxo) (c : Cell) :
    c.reconcileFrom snapshot o planned = c := by
  unfold reconcileFrom planAbout
  rw [h.2, List.flatMap_nil, List.nil_append, if_neg fun hfull => ?_]
  · rfl
  · rw [h.1] at hfull
    cases hfull.1

theorem reconcile_of_silent (hs : snapshot.Distinct) (h : snapshot.Silent o) (c : Cell) :
    c.reconcile snapshot o = c := by
  rw [← reconcileFrom_utxo hs, reconcileFrom_of_silent h]

/-- What an observation does to a cell, up to standing. -/
def move (observed : ObservedUtxo) (c : Cell) : Cell :=
  (ReconciliationPlanner.moving c.utxo observed).foldl act c

theorem Continues.of_standing (h : c.standing = d.standing) : c.Continues d := by
  obtain ⟨hutxo, -⟩ := Cell.mk.inj h
  unfold Continues
  cases hc : c.utxo with
  | none =>
    rw [hc, Option.map_none, eq_comm, Option.map_eq_none_iff] at hutxo
    rw [hutxo]
    exact .none
  | some u =>
    rw [hc, Option.map_some, eq_comm, Option.map_eq_some_iff] at hutxo
    obtain ⟨v, hd, hv⟩ := hutxo
    rw [hd]
    have hstate : v.standing.onchainState = u.standing.onchainState := congrArg _ hv
    exact .some (.inl hstate)

theorem standing_reconcile (hs : snapshot.Distinct) {observed : ObservedUtxo}
    (h : snapshot.about o = [observed]) (c : Cell) :
    (c.reconcile snapshot o).standing = (c.move observed).standing := by
  rw [← reconcileFrom_utxo hs, standing_reconcileFrom_of_singleton h]
  rfl

theorem standing_move_congr (h : c.standing = d.standing) (observed : ObservedUtxo) :
    (c.move observed).standing = (d.move observed).standing := by
  refine (standing_foldl_congr h _).trans (congrArg standing ?_)
  exact (Continues.of_standing h).foldl_moving observed

section Moves

variable {observed a b : ObservedUtxo} {u : ManagedUtxo} {k : Option OperationLock}

/-- A confirmation takes nothing from the owner of an output. -/
theorem ownership_foldl_moving_of_unspent (h : observed.spendStatus = .unspent)
    (u v : ManagedUtxo) (k : Option OperationLock) :
    ((ReconciliationPlanner.moving (some u) observed).foldl act ⟨some v, k⟩).ownership =
      ownership ⟨some v, k⟩ := by
  unfold ReconciliationPlanner.moving
  simp only [h]
  split_ifs
  · rfl
  · change ownership ⟨some (v.withOnchainState _), k⟩ = _
    refine Cell.ext (congrArg some ?_) rfl
    unfold ManagedUtxo.withOnchainState
    split_ifs <;> rfl

theorem move_of_silent (h : observed.spendStatus = .unknown ∨ observed.spendStatus = .missing)
    (c : Cell) : c.move observed = c := by
  unfold move ReconciliationPlanner.moving
  rcases h with h | h <;> cases c.utxo <;> simp [h]

theorem move_of_spent (hu : u.onchainState = .spent) :
    move observed ⟨some u, k⟩ = ⟨some u, k⟩ := by
  unfold move ReconciliationPlanner.moving
  cases observed.spendStatus <;> simp [hu, OnchainState.isSpending]

theorem move_seenSpent {txid : String} (h : observed.spendStatus = .spent txid)
    (hu : u.onchainState ≠ .spent) :
    move observed ⟨some u, k⟩ = ⟨some u.markSpent, none⟩ := by
  unfold move ReconciliationPlanner.moving
  simp [h, hu, act]

theorem move_seenUnspent (h : observed.spendStatus = .unspent)
    (hu : u.onchainState.isSpending = false) :
    move observed ⟨some u, k⟩ =
      ⟨some { u with onchainState := observed.confirmation.onchainState }, k⟩ := by
  unfold move ReconciliationPlanner.moving
  by_cases heq : u.onchainState = observed.confirmation.onchainState
  · simp [h, ← heq]
  · simp [h, hu, heq, act]

theorem move_discovered (h : observed.spendStatus = .unspent) :
    move observed ⟨none, k⟩ = ⟨some (ManagedUtxo.discoverFromObserved observed.outpoint
      observed.accountId observed.scopeId observed.valueSats observed.confirmation), k⟩ := by
  unfold move ReconciliationPlanner.moving
  simp [h, act]

theorem move_unknown (h : observed.spendStatus ≠ .unspent) :
    move observed ⟨none, k⟩ = ⟨none, k⟩ := by
  unfold move ReconciliationPlanner.moving
  cases hs : observed.spendStatus <;> simp_all

/-- `late` is what `b` was planned to do before `a`, done after it: the output ends up with the owner
of a serial order, and with an on-chain state of one of the two. -/
structure Overlaid (a b : ObservedUtxo) (c late : Cell) : Prop where
  ownership : late.ownership = ((c.move a).move b).ownership
  onchainState : late.onchainState = ((c.move a).move b).onchainState ∨
    late.onchainState = ((c.move b).move a).onchainState

/-- Where `a` changes nothing, `b` was planned on the spot. -/
theorem overlaid_of_move_eq {c : Cell} (h : c.move a = c) :
    Overlaid a b c ((ReconciliationPlanner.moving c.utxo b).foldl act (c.move a)) := by
  have hlate : (ReconciliationPlanner.moving c.utxo b).foldl act (c.move a) = (c.move a).move b := by
    rw [h]
    rfl
  rw [hlate]
  exact ⟨rfl, .inl rfl⟩

theorem overlaid_none (a b : ObservedUtxo) :
    Overlaid a b ⟨none, none⟩ ((ReconciliationPlanner.moving none b).foldl act
      (move a ⟨none, none⟩)) := by
  by_cases ha : a.spendStatus = .unspent
  · -- the output is there by now, so nothing more is discovered
    have hlate : (ReconciliationPlanner.moving none b).foldl act (move a ⟨none, none⟩) =
        move a ⟨none, none⟩ := by
      rw [move_discovered ha]
      unfold ReconciliationPlanner.moving
      cases b.spendStatus <;> rfl
    rw [hlate]
    constructor
    · rw [move_discovered ha]
      cases hb : b.spendStatus with
      | unknown => rw [move_of_silent (.inl hb)]
      | missing => rw [move_of_silent (.inr hb)]
      | unspent => exact (ownership_foldl_moving_of_unspent hb _ _ _).symm
      | spent txid =>
        rw [move_seenSpent hb (ObservedConfirmation.onchainState_ne_spent _)]
        rfl
    · by_cases hb : b.spendStatus = .unspent
      · refine .inr ?_
        rw [move_discovered ha, move_discovered hb,
          move_seenUnspent ha b.confirmation.isSpending_onchainState]
        rfl
      · rw [move_unknown hb]
        exact .inr rfl
  · exact overlaid_of_move_eq (move_unknown ha)

/-- Two observations of an output that nobody has sent and that was not spent. -/
theorem overlaid_seenUnspent (ha : a.spendStatus = .unspent)
    (hu : u.onchainState.isSpending = false) :
    Overlaid a b ⟨some u, k⟩ ((ReconciliationPlanner.moving (some u) b).foldl act
      (move a ⟨some u, k⟩)) := by
  have hspent : u.onchainState ≠ .spent := fun h => by
    rw [h] at hu
    cases hu
  have hconf := a.confirmation.isSpending_onchainState
  rw [move_seenUnspent ha hu]
  cases hb : b.spendStatus with
  | unknown | missing =>
    have hnone : ReconciliationPlanner.moving (some u) b = [] := by
      unfold ReconciliationPlanner.moving
      rw [hb]
    rw [hnone]
    constructor
    · rw [move_seenUnspent ha hu, move_of_silent (by simp [hb])]
      rfl
    · rw [move_seenUnspent ha hu, move_of_silent (by simp [hb])]
      exact .inl rfl
  | spent txid =>
    have hmark : ReconciliationPlanner.moving (some u) b = [.markSpent u.outpoint txid] := by
      unfold ReconciliationPlanner.moving
      simp [hb, hspent]
    rw [hmark]
    constructor
    · rw [move_seenUnspent ha hu,
        move_seenSpent hb (ObservedConfirmation.onchainState_ne_spent _)]
      rfl
    · rw [move_seenUnspent ha hu,
        move_seenSpent hb (ObservedConfirmation.onchainState_ne_spent _)]
      exact .inl rfl
  | unspent =>
    constructor
    · rw [ownership_foldl_moving_of_unspent hb, move_seenUnspent ha hu]
      exact (ownership_foldl_moving_of_unspent hb _ _ _).symm
    · unfold ReconciliationPlanner.moving
      simp only [hb, hu, Bool.false_eq_true, false_or]
      split_ifs with heq
      · -- `b` had nothing to change, so `a` is as if it came last
        refine .inr ?_
        rw [move_seenUnspent hb hu, move_seenUnspent ha b.confirmation.isSpending_onchainState]
        rfl
      · refine .inl ?_
        rw [move_seenUnspent ha hu, move_seenUnspent hb hconf]
        simp [act, hconf, Cell.onchainState]

/-- A late observation of an output that was marked as spent meanwhile. -/
theorem overlaid_seenSpent {txid : String} (ha : a.spendStatus = .spent txid)
    (hu : u.onchainState ≠ .spent) :
    Overlaid a b ⟨some u, k⟩ ((ReconciliationPlanner.moving (some u) b).foldl act
      (move a ⟨some u, k⟩)) := by
  have hlate : (ReconciliationPlanner.moving (some u) b).foldl act (move a ⟨some u, k⟩) =
      (move a ⟨some u, k⟩).move b := by
    rw [move_seenSpent ha hu, move_of_spent rfl]
    unfold ReconciliationPlanner.moving
    cases b.spendStatus with
    | unknown | missing => rfl
    | spent txid =>
      simp only [hu, if_false]
      rfl
    | unspent =>
      simp only
      split_ifs <;> rfl
  rw [hlate]
  exact ⟨rfl, .inl rfl⟩

/-- An observation that was planned before another one and is applied after it. -/
theorem overlaid (a b : ObservedUtxo) {c : Cell} (hc : c.utxo = none → c.lock = none) :
    Overlaid a b c ((ReconciliationPlanner.moving c.utxo b).foldl act (c.move a)) := by
  obtain ⟨utxo, k⟩ := c
  cases utxo with
  | none =>
    obtain rfl : k = none := hc rfl
    exact overlaid_none a b
  | some u =>
    by_cases hu : u.onchainState = .spent
    · exact overlaid_of_move_eq (move_of_spent hu)
    cases ha : a.spendStatus with
    | unknown => exact overlaid_of_move_eq (move_of_silent (.inl ha) _)
    | missing => exact overlaid_of_move_eq (move_of_silent (.inr ha) _)
    | spent txid => exact overlaid_seenSpent ha hu
    | unspent =>
      cases hs : u.onchainState.isSpending with
      | false => exact overlaid_seenUnspent ha hs
      | true =>
        refine overlaid_of_move_eq ?_
        unfold move ReconciliationPlanner.moving
        simp [ha, hs]

end Moves

/-- Two snapshots planned from the same cell, the second of them applied over the first: the output
ends up with the owner of the serial order, and with an on-chain state of one of the two. -/
theorem reconcileFrom_reconcile (hs : snapshot.Distinct) (ho : other.Distinct)
    (hc : c.utxo = none → c.lock = none) (o : OutPoint) :
    ((c.reconcile other o).reconcileFrom snapshot o c.utxo).ownership =
        ((c.reconcile other o).reconcile snapshot o).ownership ∧
      (((c.reconcile other o).reconcileFrom snapshot o c.utxo).onchainState =
          ((c.reconcile other o).reconcile snapshot o).onchainState ∨
        ((c.reconcile other o).reconcileFrom snapshot o c.utxo).onchainState =
          ((c.reconcile snapshot o).reconcile other o).onchainState) := by
  have hspot : c.standing = (c.reconcile other o).standing →
      ((c.reconcile other o).reconcileFrom snapshot o c.utxo).standing =
        ((c.reconcile other o).reconcile snapshot o).standing :=
    fun h => (Continues.of_standing h).standing_reconcileFrom hs o
  rcases ho.about o with hnone | ⟨a, ha⟩
  · have hsame := standing_reconcileFrom_of_nil hnone c.utxo c
    rw [reconcileFrom_utxo ho] at hsame
    exact ⟨ownership_of_standing (hspot hsame.symm),
      .inl (onchainState_of_standing (hspot hsame.symm))⟩
  rcases hs.about o with hnone | ⟨b, hb⟩
  · have hsame := standing_reconcileFrom_of_nil hnone
    have hlate := hsame c.utxo (c.reconcile other o)
    have hspot := hsame (c.reconcile other o).utxo (c.reconcile other o)
    rw [reconcileFrom_utxo hs] at hspot
    have heq := hlate.trans hspot.symm
    exact ⟨ownership_of_standing heq, .inl (onchainState_of_standing heq)⟩
  have hlate : ((c.reconcile other o).reconcileFrom snapshot o c.utxo).standing =
      ((ReconciliationPlanner.moving c.utxo b).foldl act (c.move a)).standing := by
    rw [standing_reconcileFrom_of_singleton hb]
    exact standing_foldl_congr (standing_reconcile ho ha c) _
  have hfirst : ((c.reconcile other o).reconcile snapshot o).standing =
      ((c.move a).move b).standing :=
    (standing_reconcile hs hb _).trans (standing_move_congr (standing_reconcile ho ha c) b)
  have hsecond : ((c.reconcile snapshot o).reconcile other o).standing =
      ((c.move b).move a).standing :=
    (standing_reconcile ho ha _).trans (standing_move_congr (standing_reconcile hs hb c) a)
  obtain ⟨hown, hstate⟩ := overlaid a b hc
  rw [ownership_of_standing hlate, ownership_of_standing hfirst, onchainState_of_standing hlate,
    onchainState_of_standing hfirst, onchainState_of_standing hsecond]
  exact ⟨hown, hstate⟩

end Cell

/-! ## Outputs that stay on offer -/

namespace ManagedUtxo

variable {u : ManagedUtxo} {observed : ObservedUtxo} {timestamp : ℕ}

theorem seenUnspent_eq_self (hstate : u.onchainState ≠ .spendingInFlight)
    (hmismatch : ReconciliationPlanner.observedMismatchMessage u observed = none)
    (hconfirmed : observed.confirmation.onchainState = u.onchainState)
    (havailability : u.seenAvailability observed false = u.availability)
    (hconflict : u.observationConflict = none) : u.seenUnspent observed timestamp = u := by
  unfold seenUnspent
  simp only [hmismatch, Option.isSome_none, Option.map_none, havailability, hconfirmed,
    if_neg hstate, ← hconflict]

/-- An output that is still spendable when it was seen unspent was seen as it is, and it is seen as
it is also if it was reserved meanwhile. -/
theorem seenUnspent_of_spendable (hu : u.isPolicySpendable = true)
    (h : (u.seenUnspent observed timestamp).isPolicySpendable = true) :
    u.seenUnspent observed timestamp = u ∧ ∀ id phase,
      (u.reserve id phase).seenUnspent observed timestamp = u.reserve id phase := by
  obtain ⟨havailability, hstate, hbinding, hconflict⟩ := isPolicySpendable_iff.mp hu
  obtain ⟨havailability', hstate', -, hconflict'⟩ := isPolicySpendable_iff.mp h
  have hmismatch : ReconciliationPlanner.observedMismatchMessage u observed = none :=
    Option.map_eq_none_iff.mp hconflict'
  have hnot : u.onchainState ≠ .spendingInFlight := by
    rw [hstate]
    decide
  have hconfirmed : observed.confirmation.onchainState = u.onchainState :=
    (if_neg hnot).symm.trans (hstate'.trans hstate.symm)
  have hseen : u.seenAvailability observed false = u.availability := by
    change u.seenAvailability observed (_ : Option String).isSome = _ at havailability'
    rw [hmismatch] at havailability'
    exact havailability'.trans havailability.symm
  refine ⟨seenUnspent_eq_self hnot hmismatch hconfirmed hseen hconflict, fun id phase => ?_⟩
  exact seenUnspent_eq_self hnot hmismatch hconfirmed (if_neg hnot) hconflict

end ManagedUtxo

namespace Cell

variable {c : Cell} {u v : ManagedUtxo} {o : OutPoint} {snapshot : ObservationSnapshot}

theorem observe_of_spendable {timestamp : ℕ} {observed : ObservedUtxo} {k : Option OperationLock}
    (hspendable : u.isPolicySpendable = true)
    (hv : (observe timestamp observed ⟨some u, k⟩).utxo = some v)
    (hspendable' : v.isPolicySpendable = true) :
    observe timestamp observed ⟨some u, k⟩ = ⟨some u, k⟩ ∧ ∀ id phase k',
      observe timestamp observed ⟨some (u.reserve id phase), k'⟩ =
        ⟨some (u.reserve id phase), k'⟩ := by
  have hnot : u.onchainState ≠ .spent := by
    rw [(ManagedUtxo.isPolicySpendable_iff.mp hspendable).2.1]
    decide
  have hnot' : ∀ id phase, (u.reserve id phase).onchainState ≠ .spent := fun _ _ => hnot
  have hselectable := (ManagedUtxo.isPolicySpendable_iff.mp hspendable').1
  simp only [observe, if_neg hnot, if_neg (hnot' _ _)] at hv ⊢
  cases hs : observed.spendStatus with
  | unknown => exact ⟨rfl, fun _ _ _ => rfl⟩
  | spent txid =>
    simp only [hs] at hv
    cases hv
    cases hselectable
  | missing =>
    simp only [hs] at hv
    cases hv
    cases hselectable
  | unspent =>
    simp only [hs] at hv
    cases hv
    obtain ⟨hsame, hsame'⟩ := ManagedUtxo.seenUnspent_of_spendable hspendable hspendable'
    exact ⟨congrArg (fun w => (⟨some w, k⟩ : Cell)) hsame, fun id phase k' =>
      congrArg (fun w => (⟨some w, k'⟩ : Cell)) (hsame' id phase)⟩

/-- An output that stays spendable is reconciled by doing nothing, also once it is held. -/
theorem reconcile_of_spendable (hu : c.utxo = some u) (hspendable : u.isPolicySpendable = true)
    (hv : (c.reconcile snapshot o).utxo = some v) (hspendable' : v.isPolicySpendable = true) :
    c.reconcile snapshot o = c ∧ ∀ batch tick purpose,
      (c.hold batch tick purpose).reconcile snapshot o = c.hold batch tick purpose := by
  have hheld : ∀ batch tick purpose, c.hold batch tick purpose = _ := fun batch tick purpose =>
    hold_of_free hu hspendable
  obtain ⟨utxo, k⟩ := c
  obtain rfl : utxo = some u := hu
  simp only [hheld]
  unfold reconcile at hv ⊢
  cases habout : snapshot.about o with
  | nil =>
    simp only [habout] at hv ⊢
    unfold leaveOut at hv ⊢
    split_ifs at hv ⊢
    · -- an output that is found missing is not selectable
      obtain ⟨havailability, hstate, -, -⟩ := ManagedUtxo.isPolicySpendable_iff.mp hspendable
      have hselectable := (ManagedUtxo.isPolicySpendable_iff.mp hspendable').1
      have hmissing : u.seenMissing "Reserved UTXO missing from full snapshot"
          snapshot.timestamp = v := by
        simpa [overlook, hstate, havailability] using hv
      rw [← hmissing] at hselectable
      cases hselectable
    · exact ⟨rfl, fun _ _ _ => rfl⟩
  | cons observed rest =>
    simp only [habout] at hv ⊢
    obtain ⟨hsame, hsame'⟩ := observe_of_spendable hspendable hv hspendable'
    exact ⟨hsame, fun _ _ _ => hsame' _ _ _⟩

end Cell
/-! ## Writes that only move outputs on -/

namespace Ledger

variable {rules : Rules} {l l' : Ledger}

/-- Without new outputs and without plans, every output only moves on. -/
theorem Move.continues (hputs : ∀ l u, ¬ rules.puts l u) (hplans : ∀ l plan, ¬ rules.plans l plan)
    (hmove : Move rules l l') (o : OutPoint) : (l.cell o).Continues (l'.cell o) := by
  cases hmove with
  | quiet cell | record _ _ _ cell | commit _ _ _ _ cell | fail _ _ _ _ _ cell =>
    rw [cell]
    exact .refl _
  | put u puts => exact (hputs l u puts).elim
  | reconcile plan plans => exact (hplans l plan plans).elim
  | failSelected id _ _ _ _ _ _ _ cell | release id _ cell =>
    rw [cell]
    exact Cell.continues_release id _
  | hold batch _ _ _ _ _ cell =>
    rw [cell]
    rcases l.holdCells_cases batch o with ⟨e, -, -, heq⟩ | ⟨-, heq⟩
    · rw [heq]
      exact Cell.continues_hold batch _ _ _
    · rw [heq]
      exact .refl _
  | advance id phase _ _ _ _ _ _ _ cell =>
    rw [cell]
    exact Cell.continues_advance id phase _

theorem Run.continues (hputs : ∀ l u, ¬ rules.puts l u) (hplans : ∀ l plan, ¬ rules.plans l plan)
    (h : Run rules l l') (o : OutPoint) : (l.cell o).Continues (l'.cell o) := by
  induction h with
  | refl => exact .refl _
  | tail _ hmove ih => exact ih.trans (hmove.continues hputs hplans o)

end Ledger

end Txoscope
