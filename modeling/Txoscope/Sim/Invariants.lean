import Txoscope.Core.Consistency
import Txoscope.Service.Runs

/-!
# The simulation invariants

`InvariantChecker::check` reads every managed output and every released operation and reports what
contradicts the ownership rules. In a run of the service it has nothing to report.
-/

namespace Txoscope

inductive InvariantViolationKind where
  | reservedWithoutLock
  | reservedWithoutBinding
  | selectableWithLock
  | selectableWithBinding
  | selectableWithConflict
  | selectableWhileUnconfirmed
  | releasedOperationStillBound
  deriving DecidableEq, Repr

structure InvariantViolation where
  step : ℕ
  kind : InvariantViolationKind
  detail : String
  deriving DecidableEq, Repr

namespace InvariantChecker

/-- A violation, if it is there. -/
def violation (present : Bool) (step : ℕ) (kind : InvariantViolationKind) (detail : String) :
    List InvariantViolation :=
  if present then [⟨step, kind, detail⟩] else []

/-- What an output and its lock violate. -/
def utxoViolations (step : ℕ) (utxo : ManagedUtxo) (lock : Option OperationLock) :
    List InvariantViolation :=
  let detail := utxo.outpoint.display
  match utxo.availability with
  | .reserved =>
    violation utxo.operationBinding.isNone step .reservedWithoutBinding detail ++
      violation lock.isNone step .reservedWithoutLock detail
  | .selectable =>
    violation lock.isSome step .selectableWithLock detail ++
      violation utxo.operationBinding.isSome step .selectableWithBinding detail ++
      violation utxo.observationConflict.isSome step .selectableWithConflict detail ++
      violation (utxo.onchainState ≠ .confirmed) step .selectableWhileUnconfirmed
        (detail ++ ":" ++ utxo.onchainState.debug)
  | _ => []

/-- The outputs in turn; the lock is read where the availability asks for it. -/
def checkUtxos (step : ℕ) : List ManagedUtxo → Client (List InvariantViolation)
  | [] => return []
  | utxo :: utxos => do
    if utxo.availability = .reserved ∨ utxo.availability = .selectable then
      let lock ← (StoreCall.getLock utxo.outpoint).invoke
      let rest ← checkUtxos step utxos
      return utxoViolations step utxo lock ++ rest
    else checkUtxos step utxos

/-- What an operation that was released violates. -/
def releasedViolations (step : ℕ) (operationId : OperationId) (utxos : List ManagedUtxo)
    (operation : Option PersistedOperation) : List InvariantViolation :=
  utxos.flatMap (fun utxo => violation (utxo.boundTo operationId) step .releasedOperationStillBound
    (operationId.value ++ ":" ++ utxo.outpoint.display)) ++
  match operation with
  | some operation =>
    violation (operation.phase ≠ .rollingBack) step .releasedOperationStillBound
      (operationId.value ++ ":phase=" ++ operation.phase.debug)
  | none => []

def checkReleased (step : ℕ) : List OperationId → Client (List InvariantViolation)
  | [] => return []
  | operationId :: operationIds => do
    let utxos ← StoreCall.listUtxos.invoke
    let operation ← (StoreCall.getOperation operationId).invoke
    let rest ← checkReleased step operationIds
    return releasedViolations step operationId utxos operation ++ rest

def check (step : ℕ) (releasedOperations : List OperationId) :
    Client (List InvariantViolation) := do
  let utxos ← StoreCall.listUtxos.invoke
  let violations ← checkUtxos step utxos
  let released ← checkReleased step releasedOperations
  return violations ++ released

/-- Nothing is reported of an output that is bound and locked if it is `Reserved`, and free,
confirmed and without conflict if it is `Selectable`. -/
theorem no_utxoViolations (step : ℕ) {u : ManagedUtxo} {lock : Option OperationLock}
    (hreserved : u.availability = .reserved →
      u.operationBinding.isSome = true ∧ lock.isSome = true)
    (hselectable : u.availability = .selectable → lock = none ∧ u.operationBinding = none ∧
      u.observationConflict = none ∧ u.onchainState = .confirmed) :
    utxoViolations step u lock = [] := by
  unfold utxoViolations
  cases ha : u.availability with
  | reserved =>
    obtain ⟨hb, hl⟩ := hreserved ha
    simp [violation, Option.isNone_iff_eq_none, Option.isSome_iff_ne_none.mp hb,
      Option.isSome_iff_ne_none.mp hl]
  | selectable =>
    obtain ⟨hl, hb, hc, ho⟩ := hselectable ha
    simp [violation, hl, hb, hc, ho]
  | unknown | locked | blockedByPolicy | blockedByL2 | recovering => rfl

/-- Nothing is reported of an operation that is rolled back and bound to nothing. -/
theorem no_releasedViolations (step : ℕ) {id : OperationId} {utxos : List ManagedUtxo}
    {op : PersistedOperation} (hphase : op.phase = .rollingBack)
    (hunbound : ∀ u ∈ utxos, u.boundTo id = false) :
    releasedViolations step id utxos (some op) = [] := by
  unfold releasedViolations
  simp only [List.append_eq_nil_iff, List.flatMap_eq_nil_iff]
  refine ⟨fun u hu => ?_, by simp [violation, hphase]⟩
  simp [violation, hunbound u hu]

end InvariantChecker

namespace InMemoryStateStore

open InvariantChecker

variable {s s' : InMemoryStateStore}

/-- An output that is `Reserved` is bound and locked; one that is `Selectable` is free, confirmed
and without conflict. -/
structure UtxoSound (s : InMemoryStateStore) (o : OutPoint) (u : ManagedUtxo) : Prop where
  reserved : u.availability = .reserved →
    u.operationBinding.isSome = true ∧ (s.getLock o).isSome = true
  selectable : u.availability = .selectable → s.getLock o = none ∧ u.operationBinding = none ∧
    u.observationConflict = none ∧ u.onchainState = .confirmed

theorem utxoViolations_eq_nil {step : ℕ} {o : OutPoint} {u : ManagedUtxo} (h : s.UtxoSound o u) :
    utxoViolations step u (s.getLock o) = [] := no_utxoViolations step h.reserved h.selectable

theorem run_checkUtxos (step : ℕ) {utxos : List ManagedUtxo}
    (h : ∀ u ∈ utxos, s.UtxoSound u.outpoint u) :
    Program.run exec (checkUtxos step utxos) s = (.ok [], s) := by
  induction utxos with
  | nil => rfl
  | cons u utxos ih =>
    have ih := ih fun v hv => h v (List.mem_cons_of_mem _ hv)
    unfold checkUtxos
    split_ifs
    · have hread : Program.run exec (StoreCall.getLock u.outpoint).invoke s =
          (.ok (s.getLock u.outpoint), s) := rfl
      rw [Program.run_bind_ok _ hread, Program.run_bind_ok _ ih,
        utxoViolations_eq_nil (h u List.mem_cons_self)]
      rfl
    · exact ih

/-- The operation is rolled back and bound to nothing. -/
structure Released (s : InMemoryStateStore) (id : OperationId) : Prop where
  operation : ∃ op, s.getOperation id = some op ∧ op.phase = .rollingBack
  unbound : ∀ o u, s.getUtxo o = some u → u.boundTo id = false

theorem run_checkReleased (step : ℕ) {ids : List OperationId} (hk : s.WellKeyed)
    (h : ∀ id ∈ ids, s.Released id) :
    Program.run exec (checkReleased step ids) s = (.ok [], s) := by
  induction ids with
  | nil => rfl
  | cons id ids ih =>
    have ih := ih fun id' hid => h id' (List.mem_cons_of_mem _ hid)
    obtain ⟨⟨op, hop, hphase⟩, hunbound⟩ := h id List.mem_cons_self
    have hlist : Program.run exec StoreCall.listUtxos.invoke s = (.ok s.listUtxos, s) := rfl
    have hread : Program.run exec (StoreCall.getOperation id).invoke s = (.ok (some op), s) := by
      rw [← hop]
      rfl
    have hnone : releasedViolations step id s.listUtxos (some op) = [] := by
      refine no_releasedViolations step hphase fun u hu => ?_
      obtain ⟨o, ho⟩ := ((enumerates_listUtxos hk).2 u).mp hu
      exact hunbound o u ho
    unfold checkReleased
    rw [Program.run_bind_ok _ hlist, Program.run_bind_ok _ hread, Program.run_bind_ok _ ih, hnone]
    rfl

/-! ## Releases -/

/-- The operation is on record and rolled back. -/
def RolledBack (s : InMemoryStateStore) (id : OperationId) : Prop :=
  ∃ op, s.getOperation id = some op ∧ op.phase = .rollingBack

theorem RolledBack.run {rules : Ledger.Rules} {id : OperationId} (h : s.RolledBack id)
    (hk : s.WellKeyed) (hrun : Run rules s s') : s'.RolledBack id := by
  obtain ⟨op, hop, hphase⟩ := h
  obtain ⟨op', hop', hmoves⟩ := (hrun.toLedger hk).2.operation_forward hop
  rw [hphase] at hmoves
  exact ⟨op', hop', hmoves.of_rollingBack⟩

theorem rolledBack_releaseOperation (s : InMemoryStateStore) (id : OperationId) :
    (s.releaseOperation id .rollingBack).2.RolledBack id :=
  ⟨_, Dict.get_set_self _ _ _, rfl⟩

/-- A release that lists what it released leaves the operation rolled back. -/
theorem rolledBack_releaseSelected {id : OperationId} {outs : List OutPoint}
    (h : (s.releaseSelectedOperation id).1 = some outs) :
    (s.releaseSelectedOperation id).2.RolledBack id := by
  unfold releaseSelectedOperation at h ⊢
  split_ifs at h ⊢
  exact s.rolledBack_releaseOperation id

/-- A successful release leaves the operation rolled back. -/
theorem rolledBack_of_release {id : OperationId} {outs : List OutPoint}
    (h : Program.run exec (Orchestrator.releaseOperation id) s = (.ok outs, s')) :
    s'.RolledBack id := by
  have hread : Program.run exec (StoreCall.getOperation id).invoke s =
      (.ok (s.getOperation id), s) := rfl
  unfold Orchestrator.releaseOperation Orchestrator.currentOperation at h
  rw [bind_assoc, Program.run_bind_ok _ hread] at h
  cases hop : s.getOperation id with
  | none =>
    simp only [hop, Program.run_bind, Program.run_throw] at h
    cases h
  | some op =>
    simp only [hop, pure_bind] at h
    split_ifs at h with hphase
    · cases h
      exact ⟨op, hop, hphase⟩
    · cases h
      exact s.rolledBack_releaseOperation id

/-- Every operation a cleanup lists is rolled back when it ends. -/
theorem rolledBack_of_releaseStale {ids : List OperationId} {report report' : CleanupReport}
    (hk : s.WellKeyed)
    (h : Program.run exec (Orchestrator.releaseStale ids report) s = (.ok report', s'))
    (hreport : ∀ id ∈ report.releasedOperations, s.RolledBack id) :
    ∀ id ∈ report'.releasedOperations, s'.RolledBack id := by
  induction ids generalizing s report with
  | nil =>
    cases h
    exact hreport
  | cons id ids ih =>
    have hcall : Program.run exec (Orchestrator.releaseSelectedOperation id) s =
        (.ok (s.releaseSelectedOperation id).1, (s.releaseSelectedOperation id).2) := rfl
    have hrun : Run freeRules s (s.releaseSelectedOperation id).2 :=
      .single (.call (StoreCall.releaseSelectedOperation id) trivial)
    have hk' : (s.releaseSelectedOperation id).2.WellKeyed := hk.exec (.releaseSelectedOperation id)
    have hkept : ∀ id' ∈ report.releasedOperations,
        (s.releaseSelectedOperation id).2.RolledBack id' :=
      fun id' hid => (hreport id' hid).run hk hrun
    unfold Orchestrator.releaseStale at h
    rw [Program.run_bind_ok _ hcall] at h
    cases hout : (s.releaseSelectedOperation id).1 with
    | none =>
      rw [hout] at h
      exact ih hk' h hkept
    | some outs =>
      rw [hout] at h
      refine ih hk' h fun id' hid => ?_
      rcases List.mem_append.mp hid with hid | hid
      · exact hkept id' hid
      · rw [List.mem_singleton.mp hid]
        exact rolledBack_releaseSelected hout

theorem rolledBack_of_cleanup {maxAge : ℕ} {report : CleanupReport} (hk : s.WellKeyed)
    (h : Program.run exec (Orchestrator.cleanupStaleReservations maxAge) s = (.ok report, s')) :
    ∀ id ∈ report.releasedOperations, s'.RolledBack id :=
  rolledBack_of_releaseStale hk h fun _ hid => (List.not_mem_nil hid).elim

/-- A lease that is found and expired is rolled back. -/
theorem rolledBack_of_expire {now : ℕ} {o : OutPoint} {r : ManualReservation}
    (hfound : Program.run exec (TxoscopeService.getManualReservation o) s = (.ok (some r), s))
    (hexpired : r.expiresAt ≤ now) :
    (Program.run exec (TxoscopeService.getActiveManualReservation now o) s).2.RolledBack
      r.reservationId := by
  have hselected : (s.operations.get r.reservationId).any (·.phase = .selected) = true :=
    (getManualReservation_found (congrArg Prod.fst hfound)).2
  have hcall : Program.run exec (Orchestrator.releaseSelectedOperation r.reservationId) s =
      (.ok (s.releaseSelectedOperation r.reservationId).1,
        (s.releaseSelectedOperation r.reservationId).2) := rfl
  unfold TxoscopeService.getActiveManualReservation
  rw [Program.run_bind_ok _ hfound]
  simp only [hexpired, if_true]
  rw [Program.run_bind_ok _ hcall, Program.run_pure]
  unfold releaseSelectedOperation
  rw [hselected]
  exact s.rolledBack_releaseOperation _

/-- The ways a service releases an operation: on request, by a cleanup, or because its lease has
expired. -/
inductive ReleaseCall (s s' : InMemoryStateStore) (id : OperationId) : Prop where
  | request (outs : List OutPoint)
      (h : Program.run exec (Orchestrator.releaseOperation id) s = (.ok outs, s'))
  | cleanup (maxAge : ℕ) (report : CleanupReport)
      (h : Program.run exec (Orchestrator.cleanupStaleReservations maxAge) s = (.ok report, s'))
      (listed : id ∈ report.releasedOperations)
  | expire (now : ℕ) (o : OutPoint) (r : ManualReservation)
      (found : Program.run exec (TxoscopeService.getManualReservation o) s = (.ok (some r), s))
      (expired : r.expiresAt ≤ now) (owner : id = r.reservationId)
      (h : (Program.run exec (TxoscopeService.getActiveManualReservation now o) s).2 = s')

theorem ReleaseCall.rolledBack {id : OperationId} (h : ReleaseCall s s' id) (hk : s.WellKeyed) :
    s'.RolledBack id ∧ s'.WellKeyed := by
  have hkeyed : ∀ {α : Type} {p : Client α}, OnlySettles p →
      (Program.run exec p s).2.WellKeyed := fun hp =>
    ((Keeps.run (keeps_settles hp : Keeps freeRules [] _) hk).toLedger hk).1
  cases h with
  | request outs h =>
    refine ⟨rolledBack_of_release h, ?_⟩
    have hkeyed := hkeyed (Orchestrator.releaseOperation_onlySettles id)
    rwa [h] at hkeyed
  | cleanup maxAge report h listed =>
    refine ⟨rolledBack_of_cleanup hk h id listed, ?_⟩
    have hkeyed := hkeyed (Orchestrator.cleanupStaleReservations_onlySettles maxAge)
    rwa [h] at hkeyed
  | expire now o r found expired owner h =>
    rw [← h, owner]
    exact ⟨rolledBack_of_expire found expired,
      hkeyed (TxoscopeService.getActiveManualReservation_onlySettles now o)⟩

/-! ## The invariants -/

section ServiceInvariants

variable (h : Run (serviceRules ObservationSnapshot.Distinct) empty s)

include h

theorem Run.consistent_of_service : s.toLedger.Consistent :=
  h.invariant_keyed .empty fun _ _ hk hl hm => hl.move (fun _ _ hu => False.elim hu)
    (fun l plan hplan => by
      obtain ⟨utxos, snapshot, hdistinct, hutxos, rfl⟩ := hplan
      exact ⟨utxos, snapshot, hdistinct, hutxos.1, hutxos.2, rfl⟩) hk hm

theorem Run.utxoSound {o : OutPoint} {u : ManagedUtxo} (hu : s.getUtxo o = some u) :
    s.UtxoSound o u := by
  have hagrees := h.owned_of_service.agrees o
  have hconsistent := h.consistent_of_service o u hu
  refine ⟨fun ha => ?_, fun ha => ?_⟩
  · have hbound := hconsistent.reserved ha
    obtain ⟨b, hb⟩ := Option.isSome_iff_exists.mp hbound
    exact ⟨hbound, Option.isSome_iff_exists.mpr (hagrees.bound u b hu hb)⟩
  · obtain ⟨-, hconfirmed, hunbound, hconflict⟩ :=
      ManagedUtxo.isPolicySpendable_iff.mp (hconsistent.selectable ha)
    refine ⟨hagrees.unlocked ?_, hunbound, hconflict, hconfirmed⟩
    change (s.getUtxo o).bind (·.operationBinding) = none
    rw [hu]
    exact hunbound

/-- A rolled back operation is bound to nothing. -/
theorem Run.released {id : OperationId} (hid : s.RolledBack id) : s.Released id := by
  refine ⟨hid, fun o u hu => ?_⟩
  rw [← Bool.not_eq_true, ManagedUtxo.boundTo_iff]
  rintro ⟨b, hb, rfl⟩
  have hbacks := h.owned_of_service.backs o b (Cell.binding_eq_some_iff.mpr ⟨u, hu, hb⟩)
  obtain ⟨op, hop, hphase⟩ := hid
  obtain ⟨op', hop', hphase'⟩ := hbacks.operation
  rw [show s.toLedger.operation b.operationId = some op from hop] at hop'
  cases hop'
  exact hbacks.notRollingBack (hphase' ▸ hphase)

end ServiceInvariants

/-- In a run of the service over distinct snapshots the checker reports nothing, whatever released
operations it is given. -/
theorem simulation_invariants {released : List OperationId} (step : ℕ)
    (h : ServiceRun ObservationSnapshot.Distinct empty s)
    (hreleased : ∀ id ∈ released, ∃ s₁ s₂, ServiceRun ObservationSnapshot.Distinct empty s₁ ∧
      ReleaseCall s₁ s₂ id ∧ ServiceRun ObservationSnapshot.Distinct s₂ s) :
    (Program.run exec (check step released) s).1 = .ok [] ∧
      (∀ o u, s.getUtxo o = some u → s.UtxoSound o u) ∧ ∀ id ∈ released, s.Released id := by
  have hrun := h.run .empty
  have hk : s.WellKeyed := Run.wellKeyed hrun
  have hsound : ∀ o u, s.getUtxo o = some u → s.UtxoSound o u := fun o u hu => hrun.utxoSound hu
  have hfree : ∀ id ∈ released, s.Released id := by
    intro id hid
    obtain ⟨s₁, s₂, h₁, hcall, h₂⟩ := hreleased id hid
    obtain ⟨hrolled, hk₂⟩ := hcall.rolledBack (Run.wellKeyed (h₁.run .empty))
    exact hrun.released (hrolled.run hk₂ (h₂.run hk₂))
  refine ⟨?_, hsound, hfree⟩
  have hlist : Program.run exec StoreCall.listUtxos.invoke s = (.ok s.listUtxos, s) := rfl
  have hutxos : ∀ u ∈ s.listUtxos, s.UtxoSound u.outpoint u := by
    intro u hu
    obtain ⟨o, ho⟩ := ((enumerates_listUtxos hk).2 u).mp hu
    rw [hk.toLedger.utxo o u ho]
    exact hsound o u ho
  unfold check
  rw [Program.run_bind_ok _ hlist, Program.run_bind_ok _ (run_checkUtxos step hutxos),
    Program.run_bind_ok _ (run_checkReleased step hk hfree)]
  rfl

theorem simulation_invariants_sample :
    (Program.run exec (check 0 [Sample.operationId])
      (Program.run exec (Orchestrator.releaseOperation Sample.operationId)
        (Sample.served [Sample.planned])).2).1 = .ok [] := by
  have hserved : ServiceRun ObservationSnapshot.Distinct empty (Sample.served [Sample.planned]) :=
    Sample.served_run fun m hm => by rw [List.mem_singleton.mp hm]; trivial
  have hrelease : ServiceStep ObservationSnapshot.Distinct (Sample.served [Sample.planned])
      (Program.run exec (Orchestrator.releaseOperation Sample.operationId)
        (Sample.served [Sample.planned])).2 :=
    .method "owner" (fun _ => ⟨"reservation"⟩) (fun _ => 0) (.releaseOperation Sample.operationId)
      trivial
  refine (simulation_invariants 0 (hserved.tail hrelease) fun id hid => ?_).1
  rw [List.mem_singleton.mp hid]
  exact ⟨_, _, hserved, .request [Sample.outpoint] rfl, .refl⟩

end InMemoryStateStore

end Txoscope
