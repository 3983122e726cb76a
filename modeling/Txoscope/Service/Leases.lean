import Txoscope.Memory.Orderly
import Txoscope.Service.Expiry
import Txoscope.Service.Reserving

/-!
# Leases

A manual reservation is a lease: its lock carries an expiry for as long as its operation is in
`Selected`. So looking a lease up never fails in a state that a service can reach, and expiring the
candidates of a call releases exactly the operations whose lease on one of them has run out
(`run_expireStaleCandidateReservations`, `mem_expiring_iff`).
-/

namespace Txoscope

/-! ## What the service records -/

/-- A selection for manual reservations has an expiry. -/
def OperationSelection.Dated (selection : OperationSelection) : Prop :=
  ∀ e ∈ selection.effects, e.purpose = .manualReservation → selection.expiresAt.isSome = true

/-- Whatever is selected for a request is dated. -/
theorem SelectionRequest.dated (request : SelectionRequest) (inputs : SelectedInputs) :
    (OperationSelection.fromRequest request.intoOperationRequest inputs).Dated := by
  intro e he hpurpose
  obtain ⟨o, -, rfl⟩ := List.mem_map.mp he
  cases request with
  | btcSend | plannedExactOutpoints | plannedSpecificOutpoint => cases hpurpose
  | manualReservationExact | manualReservationFirstAvailable => rfl

namespace TxoscopeService

theorem explicitSelection_dated (req : ApplyExplicitSelectionRequest) :
    (ApplyExplicitSelectionRequest.selection req).Dated := by
  intro e he hpurpose
  obtain ⟨o, -, rfl⟩ := List.mem_map.mp he
  cases hpurpose

theorem assetSelection_dated (req : PlanAssetSelectionRequest) (outpoints : List OutPoint)
    (scopeId : WalletScopeId) : (assetSelection req outpoints scopeId).Dated := fun _ he hpurpose =>
  (InMemoryStateStore.assetSelection_purpose he hpurpose).elim

theorem method_onlyRecords (owner : String) (generate : ℕ → OperationId) (now : ℕ → ℕ)
    (m : Method) : OnlyRecords OperationSelection.Dated (m.program owner generate now) := by
  have hdrop : ∀ {α : Type} {p : Client α}, OnlyRecords OperationSelection.Dated p →
      OnlyRecords OperationSelection.Dated (do let _ ← p : Client Unit) :=
    fun h => .bind h fun _ => .pure _
  cases m with
  | bootstrap cfg => exact OnlySettles.records (bootstrap_onlySettles cfg)
  | reconcileSnapshot snapshot =>
    refine hdrop (.bind (.invoke trivial) fun _ => .bind ?_ fun _ => .bind (.invoke trivial)
      fun _ => .pure _)
    exact .bind (OnlyReads.records (Orchestrator.plan_onlyReads _)) fun _ =>
      .bind (.invoke trivial) fun _ => .pure _
  | planExactOutpoints req =>
    exact hdrop (.bind (Orchestrator.prepareOperation_onlyRecords owner req.request.dated)
      fun _ => .pure _)
  | applyExplicitSelection req =>
    refine hdrop (.bind (.ofExcept _) fun _ => .bind (.invoke trivial) fun scope => ?_)
    cases scope with
    | none => exact .throw _
    | some scope =>
      exact .bind (Orchestrator.applySelection_onlyRecords owner (explicitSelection_dated req))
        fun _ => .pure _
  | reserveSpecificUtxo req =>
    exact hdrop (.bind (Orchestrator.prepareOperation_onlyRecords owner req.request.dated)
      fun _ => .pure _)
  | reserveManualUtxo req =>
    exact hdrop (.bind (Orchestrator.prepareOperation_onlyRecords owner (SelectionRequest.dated _))
      fun _ => .ofExcept _)
  | reserveFirstAvailableManualUtxo req =>
    refine hdrop (.bind (OnlySettles.records (expireStaleCandidateReservations_onlySettles _ _))
      fun _ => ?_)
    refine .bind (.attempt (Orchestrator.prepareOperation_onlyRecords owner
      (SelectionRequest.dated _))) fun result => ?_
    split
    · exact .bind (.ofExcept _) fun _ => .pure _
    · exact .pure _
    · exact .throw _
  | getActiveManualReservation o =>
    exact hdrop (OnlySettles.records (getActiveManualReservation_onlySettles _ o))
  | previewAssetSelection req =>
    exact hdrop (OnlySettles.records (previewAssetSelection_onlySettles _ req))
  | planAssetSelection req =>
    refine hdrop (.bind (OnlySettles.records (previewAssetSelection_onlySettles _ _))
      fun selected => ?_)
    cases selected.head? with
    | none => exact .throw _
    | some first =>
      refine .bind (.invoke trivial) fun utxo => ?_
      cases utxo with
      | none => exact .throw _
      | some utxo =>
        exact .bind (Orchestrator.applySelection_onlyRecords owner (assetSelection_dated _ _ _))
          fun _ => .pure _
  | releaseOperation id =>
    exact hdrop (OnlySettles.records (Orchestrator.releaseOperation_onlySettles id))
  | completeOperation id phase outpoints =>
    exact hdrop (OnlySettles.records (Orchestrator.completeOperation_onlySettles id phase outpoints))
  | cleanupStaleReservations maxAge =>
    exact hdrop (OnlySettles.records (Orchestrator.cleanupStaleReservations_onlySettles maxAge))

end TxoscopeService

namespace InMemoryStateStore

open TxoscopeService

variable {s s' : InMemoryStateStore} {id : OperationId}

/-- Every selection on record is dated. -/
def RecordsDated (s : InMemoryStateStore) : Prop :=
  ∀ id i, s.getIntent id = some i → i.selection.Dated

/-! ## Reachable states -/

/-- What every state a service reaches has in common. -/
structure Sound (s : InMemoryStateStore) : Prop where
  keyed : s.WellKeyed
  owned : s.toLedger.Owned
  justified : s.toLedger.Justified
  dated : s.toLedger.Dated
  recorded : s.RecordsDated

theorem ServiceRun.recordsDated {snapshots : ObservationSnapshot → Prop}
    (h : ServiceRun snapshots empty s) : s.RecordsDated := by
  induction h with
  | refl => exact fun _ _ h => (nomatch h)
  | tail hrun hstep ih =>
    have hk := (ServiceRun.run hrun .empty).wellKeyed
    cases hstep with
    | method owner generate now m hm =>
      exact fun _ _ => records_run hk ih (method_onlyRecords owner generate now m)
    | reorder hsame =>
      intro id i hi
      exact ih id i ((hsame.intents id).trans hi)

theorem ServiceRun.sound {snapshots : ObservationSnapshot → Prop}
    (h : ServiceRun snapshots empty s) : s.Sound := by
  have hrun : Run (serviceRules snapshots) empty s := ServiceRun.run h .empty
  exact ⟨hrun.wellKeyed, hrun.invariant .empty fun _ _ hl hm => hl.move (fun _ _ => False.elim) hm,
    hrun.invariant .empty fun _ _ hl hm => hl.move hm,
    hrun.invariant .empty fun _ _ hl hm => hl.move hm, h.recordsDated⟩

theorem Sound.releaseOperation (h : s.Sound) (id : OperationId) :
    (s.releaseOperation id .rollingBack).2.Sound := by
  have hmove : Ledger.Move freeRules s.toLedger (s.releaseOperation id .rollingBack).2.toLedger := by
    rw [toLedger_releaseOperation]
    exact Ledger.releaseOperation_move id
  exact ⟨h.keyed.releaseOperation id _, h.owned.move newRules_puts hmove, h.justified.move hmove,
    h.dated.move hmove, h.recorded⟩

/-- A manual reservation whose operation is in `Selected` expires. -/
theorem Sound.lease_expires (h : s.Sound) {o : OutPoint} {k : OperationLock}
    (hk : s.getLock o = some k) (hpurpose : k.purpose = .manualReservation)
    (hselected : s.InSelected k.operationId) : k.expiresAt.isSome = true := by
  obtain ⟨op, hop, hphase⟩ := hselected
  obtain ⟨i, hi, hmem⟩ := h.justified o k hk
  rcases h.dated o k hk with ⟨i', hi', hdated⟩ | ⟨op', hop', hleft⟩
  · rw [hi] at hi'
    cases hi'
    rw [← hdated]
    exact h.recorded _ i hi _ hmem hpurpose
  · rw [show s.toLedger.operation _ = some op from hop] at hop'
    cases hop'
    exact (hleft hphase).elim

/-! ## The lease on an output -/

/-- The manual reservation in force on an output: its operation is still in `Selected`. -/
def leaseOn (s : InMemoryStateStore) (o : OutPoint) : Option ManualReservation :=
  match s.getLock o with
  | none => none
  | some k =>
    if k.purpose = .manualReservation ∧ (s.getOperation k.operationId).any (·.phase = .selected) then
      k.expiresAt.map fun expiresAt => ⟨k.operationId, o, expiresAt⟩
    else none

theorem any_selected_iff : (s.getOperation id).any (·.phase = .selected) = true ↔ s.InSelected id := by
  rw [Option.any_eq_true]
  simp only [decide_eq_true_eq]
  rfl

theorem leaseOn_eq_some_iff {o : OutPoint} {r : ManualReservation} :
    s.leaseOn o = some r ↔ ∃ k, s.getLock o = some k ∧ k.purpose = .manualReservation ∧
      s.InSelected k.operationId ∧ ∃ t, k.expiresAt = some t ∧ r = ⟨k.operationId, o, t⟩ := by
  unfold leaseOn
  cases hk : s.getLock o with
  | none => simp
  | some k =>
    simp only [Option.some.injEq, exists_eq_left']
    split_ifs with h
    · rw [any_selected_iff] at h
      simp [h, eq_comm]
    · rw [any_selected_iff] at h
      refine ⟨fun hnone => (by cases hnone), ?_⟩
      rintro ⟨hpurpose, hselected, -⟩
      exact (h ⟨hpurpose, hselected⟩).elim

/-- The lease of a sound state is found by the service. -/
theorem run_getManualReservation (h : s.Sound) (o : OutPoint) :
    Program.run exec (getManualReservation o) s = (.ok (s.leaseOn o), s) := by
  have hlock : Program.run exec (StoreCall.getLock o).invoke s = (.ok (s.getLock o), s) := rfl
  unfold getManualReservation leaseOn
  rw [Program.run_bind_ok _ hlock]
  cases hk : s.getLock o with
  | none => rfl
  | some k =>
    dsimp only
    by_cases hpurpose : k.purpose = .manualReservation
    · have hop : Program.run exec (StoreCall.getOperation k.operationId).invoke s =
          (.ok (s.getOperation k.operationId), s) := rfl
      have hutxo : Program.run exec (StoreCall.getUtxo o).invoke s = (.ok (s.getUtxo o), s) := rfl
      rw [if_neg (not_not.mpr hpurpose), Program.run_bind_ok _ hop, Program.run_bind_ok _ hutxo]
      by_cases hselected : (s.getOperation k.operationId).any (·.phase = .selected) = true
      · -- the output is bound like its lock, and the selection is dated
        obtain ⟨op, hop, hphase⟩ := (Option.any_eq_true _ _).mp hselected
        have hphase : op.phase = .selected := by simpa using hphase
        obtain ⟨u, b, hu, hb, howner, -⟩ := (h.owned.agrees o).locked k hk
        obtain ⟨op', hop', hbphase⟩ :=
          (h.owned.backs o b (Cell.binding_eq_some_iff.mpr ⟨u, hu, hb⟩)).operation
        rw [← howner, show s.toLedger.operation _ = some op from hop] at hop'
        cases hop'
        have hbound : ((s.getUtxo o).bind (·.operationBinding)).any (fun binding =>
            binding.operationId = k.operationId ∧ binding.phase = .selected) = true := by
          rw [show s.getUtxo o = some u from hu, Option.bind_some, hb, Option.any_some,
            decide_eq_true_eq]
          exact ⟨howner.symm, hbphase ▸ hphase⟩
        obtain ⟨t, ht⟩ :=
          Option.isSome_iff_exists.mp (h.lease_expires hk hpurpose ⟨op, hop, hphase⟩)
        rw [if_neg (by rw [hselected, hbound]; decide), if_pos ⟨hpurpose, hselected⟩, ht]
        rfl
      · rw [if_pos (by simp [hselected]), if_neg fun h => hselected h.2]
        rfl
    · rw [if_pos hpurpose, if_neg fun h => hpurpose h.1]
      rfl

/-- The operation whose lease on an output has run out. -/
def dueOn (s : InMemoryStateStore) (now : ℕ) (o : OutPoint) : Option OperationId :=
  ((s.leaseOn o).filter (·.expiresAt ≤ now)).map (·.reservationId)

theorem dueOn_eq_some_iff {now : ℕ} {o : OutPoint} :
    s.dueOn now o = some id ↔
      ∃ r, s.leaseOn o = some r ∧ r.reservationId = id ∧ r.expiresAt ≤ now := by
  unfold dueOn
  rw [Option.map_eq_some_iff]
  simp only [Option.filter_eq_some_iff, decide_eq_true_eq]
  exact exists_congr fun r => ⟨fun h => ⟨h.1.1, h.2, h.1.2⟩, fun h => ⟨⟨h.1, h.2.2⟩, h.2.1⟩⟩

theorem run_getActiveManualReservation (h : s.Sound) (now : ℕ) (o : OutPoint) :
    ∃ r, Program.run exec (getActiveManualReservation now o) s =
      (.ok r, match s.dueOn now o with
        | some id => (s.releaseOperation id .rollingBack).2
        | none => s) := by
  unfold getActiveManualReservation
  rw [Program.run_bind_ok _ (run_getManualReservation h o)]
  unfold dueOn
  cases hr : s.leaseOn o with
  | none => exact ⟨none, rfl⟩
  | some r =>
    dsimp only
    by_cases hdue : r.expiresAt ≤ now
    · rw [if_pos hdue, Option.filter_some, if_pos (decide_eq_true hdue)]
      obtain ⟨k, -, -, ⟨op, hop, hphase⟩, t, -, rfl⟩ := leaseOn_eq_some_iff.mp hr
      refine ⟨none, ?_⟩
      change (_, (s.releaseSelectedOperation k.operationId).2) = _
      unfold releaseSelectedOperation
      rw [if_neg]
      · rfl
      · rw [show s.operations.get k.operationId = some op from hop]
        simp [hphase]
    · rw [if_neg hdue, Option.filter_some, if_neg (by simpa using hdue)]
      exact ⟨some r, rfl⟩

/-- A release takes the leases of its operation away and leaves every other. -/
theorem leaseOn_releaseOperation (id : OperationId) (o : OutPoint) :
    (s.releaseOperation id .rollingBack).2.leaseOn o =
      (s.leaseOn o).filter fun r => r.reservationId ≠ id := by
  have hlock : (s.releaseOperation id .rollingBack).2.getLock o =
      (s.getLock o).filter (·.operationId ≠ id) :=
    congrArg Cell.lock (cell_releaseOperation s id _ o)
  have hoperation : ∀ id' ≠ id, (s.releaseOperation id .rollingBack).2.getOperation id' =
      s.getOperation id' := by
    intro id' hne
    rw [getOperation_releaseOperation, Function.update_of_ne hne]
  unfold leaseOn
  rw [hlock]
  cases hk : s.getLock o with
  | none => rfl
  | some k =>
    by_cases hid : k.operationId = id
    · rw [Option.filter_some, if_neg (by simpa using hid)]
      dsimp only
      split_ifs
      · cases k.expiresAt with
        | none => rfl
        | some t => exact (if_neg (by simpa using hid)).symm
      · rfl
    · rw [Option.filter_some, if_pos (by simpa using hid)]
      dsimp only
      rw [hoperation _ hid]
      split_ifs
      · cases k.expiresAt with
        | none => rfl
        | some t => exact (if_pos (by simpa using hid)).symm
      · rfl

/-! ## Expiring candidates -/

/-- The state after the operations were released in turn. -/
def releasing (s : InMemoryStateStore) (ids : List OperationId) : InMemoryStateStore :=
  ids.foldl (fun s id => (s.releaseOperation id .rollingBack).2) s

/-- The operations that lose their lease when the candidates are looked at in turn, each by the
next reading of the clock. -/
def expiring (now : ℕ → ℕ) : List OutPoint → InMemoryStateStore → List OperationId
  | [], _ => []
  | o :: outpoints, s =>
    match s.dueOn (now 0) o with
    | some id =>
      id :: expiring (fun i => now (i + 1)) outpoints (s.releaseOperation id .rollingBack).2
    | none => expiring (fun i => now (i + 1)) outpoints s

/-- A candidate is under a lease of the operation that runs out before it is looked at. -/
def RunsOut (s : InMemoryStateStore) (now : ℕ → ℕ) (outpoints : List OutPoint)
    (id : OperationId) : Prop :=
  ∃ i o r, outpoints[i]? = some o ∧ s.leaseOn o = some r ∧ r.reservationId = id ∧
    r.expiresAt ≤ now i

theorem Sound.releasing (h : s.Sound) (ids : List OperationId) : (s.releasing ids).Sound := by
  induction ids generalizing s with
  | nil => exact h
  | cons id ids ih => exact ih (h.releaseOperation id)

/-- The state after the candidates were expired. -/
def afterExpiry (s : InMemoryStateStore) (now : ℕ → ℕ) (outpoints : List OutPoint) :
    InMemoryStateStore :=
  s.releasing (expiring now outpoints s)

/-- The candidates of a sound state are expired without an error. -/
theorem run_expireStaleCandidateReservations (h : s.Sound) (now : ℕ → ℕ)
    (outpoints : List OutPoint) :
    Program.run exec (expireStaleCandidateReservations now outpoints) s =
      (.ok (), s.afterExpiry now outpoints) := by
  unfold afterExpiry
  induction outpoints generalizing now s with
  | nil => rfl
  | cons o outpoints ih =>
    obtain ⟨r, hactive⟩ := run_getActiveManualReservation h (now 0) o
    unfold expireStaleCandidateReservations expiring
    rw [Program.run_bind_ok _ hactive]
    cases s.dueOn (now 0) o with
    | none => exact ih h _
    | some id => exact ih (h.releaseOperation id) _

theorem runsOut_cons_iff {now : ℕ → ℕ} {o : OutPoint} {outpoints : List OutPoint} :
    s.RunsOut now (o :: outpoints) id ↔
      s.dueOn (now 0) o = some id ∨ s.RunsOut (fun i => now (i + 1)) outpoints id := by
  rw [dueOn_eq_some_iff]
  constructor
  · rintro ⟨i, o', r, ho', hr⟩
    cases i with
    | zero =>
      obtain rfl : o = o' := by simpa using ho'
      exact .inl ⟨r, hr⟩
    | succ i => exact .inr ⟨i, o', r, by simpa using ho', hr⟩
  · rintro (⟨r, hr⟩ | ⟨i, o', r, ho', hr⟩)
    · exact ⟨0, o, r, rfl, hr⟩
    · exact ⟨i + 1, o', r, by simpa using ho', hr⟩

theorem runsOut_releaseOperation_iff {now : ℕ → ℕ} {outpoints : List OutPoint}
    {released : OperationId} :
    (s.releaseOperation released .rollingBack).2.RunsOut now outpoints id ↔
      s.RunsOut now outpoints id ∧ id ≠ released := by
  unfold RunsOut
  simp only [leaseOn_releaseOperation, Option.filter_eq_some_iff, decide_eq_true_eq]
  constructor
  · rintro ⟨i, o, r, ho, ⟨hr, hne⟩, rfl, hdue⟩
    exact ⟨⟨i, o, r, ho, hr, rfl, hdue⟩, hne⟩
  · rintro ⟨⟨i, o, r, ho, hr, rfl, hdue⟩, hne⟩
    exact ⟨i, o, r, ho, ⟨hr, hne⟩, rfl, hdue⟩

/-- Exactly the leases that have run out are ended. -/
theorem mem_expiring_iff {now : ℕ → ℕ} {outpoints : List OutPoint} :
    id ∈ expiring now outpoints s ↔ s.RunsOut now outpoints id := by
  induction outpoints generalizing now s with
  | nil =>
    refine ⟨fun h => (List.not_mem_nil h).elim, ?_⟩
    rintro ⟨i, o, r, ho, -⟩
    simp at ho
  | cons o outpoints ih =>
    rw [runsOut_cons_iff]
    unfold expiring
    cases s.dueOn (now 0) o with
    | none => simpa using ih
    | some released =>
      rw [List.mem_cons, ih, runsOut_releaseOperation_iff, Option.some.injEq]
      by_cases hid : id = released <;> simp [hid, eq_comm]

theorem nodup_expiring (now : ℕ → ℕ) (outpoints : List OutPoint) (s : InMemoryStateStore) :
    (expiring now outpoints s).Nodup := by
  induction outpoints generalizing now s with
  | nil => exact List.nodup_nil
  | cons o outpoints ih =>
    unfold expiring
    cases s.dueOn (now 0) o with
    | none => exact ih _ _
    | some released =>
      refine List.nodup_cons.mpr ⟨fun hmem => ?_, ih _ _⟩
      exact (runsOut_releaseOperation_iff.mp (mem_expiring_iff.mp hmem)).2 rfl

/-- What is recorded of intents, accounts and scopes is no matter of a release. -/
theorem releasing_frame (ids : List OperationId) (s : InMemoryStateStore) :
    (s.releasing ids).getIntent = s.getIntent ∧ (s.releasing ids).getAccount = s.getAccount ∧
      (s.releasing ids).getScope = s.getScope := by
  induction ids generalizing s with
  | nil => exact ⟨rfl, rfl, rfl⟩
  | cons id ids ih => exact ih (s.releaseOperation id .rollingBack).2

/-- An operation that is not released keeps its record. -/
theorem getOperation_releasing {ids : List OperationId} (h : id ∉ ids) :
    (s.releasing ids).getOperation id = s.getOperation id := by
  induction ids generalizing s with
  | nil => rfl
  | cons released ids ih =>
    rw [List.mem_cons, not_or] at h
    refine (ih h.2).trans ?_
    rw [getOperation_releaseOperation, Function.update_of_ne h.1]

/-- An operation that does not exist has no lease, so it does not come to exist either. -/
theorem getOperation_afterExpiry_of_none (hop : s.getOperation id = none) (now : ℕ → ℕ)
    (outpoints : List OutPoint) : (s.afterExpiry now outpoints).getOperation id = none := by
  refine (getOperation_releasing fun hmem => ?_).trans hop
  obtain ⟨i, o, r, -, hr, rfl, -⟩ := mem_expiring_iff.mp hmem
  obtain ⟨k, -, -, ⟨op, hop', -⟩, t, -, rfl⟩ := leaseOn_eq_some_iff.mp hr
  rw [hop] at hop'
  cases hop'

end InMemoryStateStore

end Txoscope
