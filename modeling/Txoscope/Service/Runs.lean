import Txoscope.Core.Planning
import Txoscope.Memory.Safety
import Txoscope.Service.Facade

/-!
# Runs of the service

A service owns its store: its methods run one after the other, each to its end. Between two of
them the tables of the in-memory store may be iterated over in another order. Every such run is a
run of the store in which the plans applied were made from the outputs they are applied to.
-/

namespace Txoscope

namespace TxoscopeService

/-! ## Which calls the service adds -/

theorem bootstrap_onlySettles (cfg : BootstrapConfig) : OnlySettles (bootstrap cfg) :=
  .bind (.forEach (fun _ => .invoke trivial) _) fun _ => .forEach (fun _ => .invoke trivial) _

theorem getManualReservation_onlyReads (outpoint : OutPoint) :
    OnlyReads (getManualReservation outpoint) := by
  unfold getManualReservation
  refine .bind (.invoke trivial) fun lock => ?_
  cases lock with
  | none => exact .pure _
  | some lock =>
    dsimp only
    split_ifs
    · exact .pure _
    · refine .bind (.invoke trivial) fun operation => .bind (.invoke trivial) fun utxo => ?_
      split_ifs
      · exact .pure _
      · cases lock.expiresAt with
        | none => exact .throw _
        | some expiresAt => exact .pure _

theorem getActiveManualReservation_onlySettles (now : ℕ) (outpoint : OutPoint) :
    OnlySettles (getActiveManualReservation now outpoint) := by
  unfold getActiveManualReservation
  refine .bind (OnlyReads.settles (getManualReservation_onlyReads outpoint)) fun found => ?_
  cases found with
  | none => exact .pure _
  | some reservation =>
    dsimp only
    split_ifs
    · exact .bind (.invoke trivial) fun _ => .pure _
    · exact .pure _

theorem expireStaleCandidateReservations_onlySettles (now : ℕ → ℕ) (outpoints : List OutPoint) :
    OnlySettles (expireStaleCandidateReservations now outpoints) := by
  induction outpoints generalizing now with
  | nil => exact .pure _
  | cons outpoint outpoints ih =>
    exact .bind (getActiveManualReservation_onlySettles _ _) fun _ => ih _

theorem assessCandidates_onlyReads (req : AssetSelectionRequest) (account : Account)
    (scopes : AssetScopes) (candidates : List AssetInputCandidate) :
    OnlyReads (assessCandidates req account scopes candidates) := by
  induction candidates with
  | nil => exact .pure _
  | cons candidate candidates ih =>
    unfold assessCandidates
    refine .bind (Orchestrator.utxoStatus_onlyReads _) fun status => .bind ih fun rest => ?_
    dsimp only
    split <;> exact .pure _

theorem selectAssets_onlyReads (req : AssetSelectionRequest) : OnlyReads (selectAssets req) := by
  unfold selectAssets
  refine .bind (.invoke trivial) fun account => ?_
  cases account with
  | none => exact .throw _
  | some account =>
    dsimp only
    split_ifs
    · refine .bind (SelectionContext.readScopes_onlyReads _) fun known => ?_
      split_ifs
      · exact .throw _
      · refine .bind (assessCandidates_onlyReads _ _ _ _) fun assessed => ?_
        exact .bind (.ofExcept _) fun _ => .ofExcept _
    · exact .throw _

theorem previewAssetSelection_onlySettles (now : ℕ → ℕ) (req : AssetSelectionRequest) :
    OnlySettles (previewAssetSelection now req) :=
  .bind (.ofExcept _) fun _ => .bind (expireStaleCandidateReservations_onlySettles _ _) fun _ =>
    OnlyReads.settles (selectAssets_onlyReads req)

end TxoscopeService

namespace InMemoryStateStore

open TxoscopeService

/-! ## Service runs -/

/-- No output is put in, and every plan was made from the outputs it is applied to, for a snapshot
of `snapshots`. -/
def serviceRules (snapshots : ObservationSnapshot → Prop) : Ledger.Rules where
  puts _ _ := False
  plans l plan := ∃ utxos snapshot, snapshots snapshot ∧
    Enumerates utxos {u | ∃ o, l.utxo o = some u} ∧
      plan = ReconciliationPlanner.planFor utxos snapshot

/-- A method whose snapshot, if it has one, is of `snapshots`. -/
def MethodOf (snapshots : ObservationSnapshot → Prop) : TxoscopeService.Method → Prop
  | .reconcileSnapshot snapshot => snapshots snapshot
  | _ => True

/-- A service calls a method, or the tables change the order in which they are iterated over. -/
inductive ServiceStep (snapshots : ObservationSnapshot → Prop) :
    InMemoryStateStore → InMemoryStateStore → Prop where
  | method {s : InMemoryStateStore} (owner : String) (generate : ℕ → OperationId) (now : ℕ → ℕ)
      (m : TxoscopeService.Method) (h : MethodOf snapshots m) :
      ServiceStep snapshots s (Program.run exec (m.program owner generate now) s).2
  | reorder {s s' : InMemoryStateStore} (h : s.SameContents s') : ServiceStep snapshots s s'

/-- Any number of calls of the service, with any owner label, clock and generator. -/
abbrev ServiceRun (snapshots : ObservationSnapshot → Prop) :
    InMemoryStateStore → InMemoryStateStore → Prop :=
  Relation.ReflTransGen (ServiceStep snapshots)

variable {snapshots : ObservationSnapshot → Prop} {s s' : InMemoryStateStore}

/-- A manual reservation that is found has its lock, and its operation is in `Selected`. -/
theorem getManualReservation_found {o : OutPoint} {r : ManualReservation}
    (h : (Program.run exec (getManualReservation o) s).1 = .ok (some r)) :
    (∃ k, s.getLock o = some k ∧ k.operationId = r.reservationId ∧
        k.purpose = .manualReservation) ∧
      (s.getOperation r.reservationId).any (·.phase = .selected) = true := by
  have hlock : Program.run exec (StoreCall.getLock o).invoke s = (.ok (s.getLock o), s) := rfl
  unfold getManualReservation at h
  rw [Program.run_bind_ok _ hlock] at h
  cases hk : s.getLock o with
  | none =>
    simp only [hk, Program.run_pure] at h
    cases h
  | some lock =>
    simp only [hk] at h
    split_ifs at h with hpurpose
    · cases h
    · have hop : Program.run exec (StoreCall.getOperation lock.operationId).invoke s =
          (.ok (s.getOperation lock.operationId), s) := rfl
      have hutxo : Program.run exec (StoreCall.getUtxo o).invoke s = (.ok (s.getUtxo o), s) := rfl
      rw [Program.run_bind_ok _ hop, Program.run_bind_ok _ hutxo] at h
      split_ifs at h with hselected
      · cases h
      · rw [Bool.or_eq_true, not_or, Bool.not_eq_true', Bool.not_eq_false] at hselected
        cases he : lock.expiresAt with
        | none =>
          simp only [he, Program.run_throw] at h
          cases h
        | some expiresAt =>
          simp only [he, Program.run_pure, Except.ok.injEq, Option.some.injEq] at h
          rw [← h]
          exact ⟨⟨lock, rfl, rfl, not_not.mp hpurpose⟩, hselected.1⟩

/-- A method other than `reconcile_snapshot` keeps to admissible calls. -/
theorem keeps_serviceMethod {rules : Ledger.Rules} (owner : String) (generate : ℕ → OperationId)
    (now : ℕ → ℕ) {m : TxoscopeService.Method} (hm : ∀ snapshot, m ≠ .reconcileSnapshot snapshot) :
    Keeps rules [] (m.program owner generate now) := by
  have hdrop : ∀ {α : Type} {p : Client α}, Keeps rules [] p →
      Keeps rules [] (do let _ ← p : Client Unit) := fun h => .bind h fun _ => .pure _
  cases m with
  | bootstrap cfg => exact keeps_settles (bootstrap_onlySettles cfg)
  | reconcileSnapshot snapshot => exact (hm snapshot rfl).elim
  | planExactOutpoints req => exact hdrop (.bind (keeps_prepareOperation owner _) fun _ => .pure _)
  | applyExplicitSelection req =>
    refine hdrop (.bind (keeps_harmless (.ofExcept _)) fun _ => ?_)
    refine .bind (keeps_harmless (.invoke trivial)) fun scope => ?_
    cases scope with
    | none => exact .throw _
    | some scope => exact .bind (keeps_applySelection owner _) fun _ => .pure _
  | reserveSpecificUtxo req =>
    exact hdrop (.bind (keeps_prepareOperation owner _) fun _ => .pure _)
  | reserveManualUtxo req =>
    exact hdrop (.bind (keeps_prepareOperation owner _) fun _ => keeps_harmless (.ofExcept _))
  | reserveFirstAvailableManualUtxo req =>
    refine hdrop (.bind (keeps_settles
      (expireStaleCandidateReservations_onlySettles _ _)) fun _ => ?_)
    refine .bind (.attempt (keeps_prepareOperation owner _)) fun result => ?_
    split
    · exact .bind (keeps_harmless (.ofExcept _)) fun _ => .pure _
    · exact .pure _
    · exact .throw _
  | getActiveManualReservation outpoint =>
    exact hdrop (keeps_settles (getActiveManualReservation_onlySettles _ _))
  | previewAssetSelection req =>
    exact hdrop (keeps_settles (previewAssetSelection_onlySettles _ _))
  | planAssetSelection req =>
    refine hdrop (.bind (keeps_settles (previewAssetSelection_onlySettles _ _)) fun selected => ?_)
    cases selected.head? with
    | none => exact .throw _
    | some first =>
      refine .bind (keeps_harmless (.invoke trivial)) fun utxo => ?_
      cases utxo with
      | none => exact .throw _
      | some utxo => exact .bind (keeps_applySelection owner _) fun _ => .pure _
  | releaseOperation id =>
    exact hdrop (keeps_settles (Orchestrator.releaseOperation_onlySettles id))
  | completeOperation id phase outpoints =>
    exact hdrop (keeps_settles (Orchestrator.completeOperation_onlySettles id phase outpoints))
  | cleanupStaleReservations maxAge =>
    exact hdrop (keeps_settles (Orchestrator.cleanupStaleReservations_onlySettles maxAge))

/-- A client that keeps to admissible calls makes a run, alone on the store. -/
theorem Keeps.run {rules : Ledger.Rules} {α : Type} {p : Client α} (h : Keeps rules [] p)
    (hk : s.WellKeyed) : Run rules s (Program.run exec p s).2 :=
  (h s ⟨hk, fun _ hm => (List.not_mem_nil hm).elim⟩).steps_of_run Interferes.refl

theorem ServiceStep.run (h : ServiceStep snapshots s s') (hk : s.WellKeyed) :
    Run (serviceRules snapshots) s s' := by
  cases h with
  | reorder h => exact .single (.env h)
  | method owner generate now m hm =>
    by_cases hr : ∃ snapshot, m = .reconcileSnapshot snapshot
    · obtain ⟨snapshot, rfl⟩ := hr
      have htick : Run (serviceRules snapshots) s (s.advanceTick 1) :=
        .single (.call (StoreCall.advanceTick 1) trivial)
      refine htick.tail (.call (StoreCall.applyReconciliation _) ?_)
      exact ⟨_, snapshot, hm, enumerates_listUtxos (hk.exec (.advanceTick 1)), rfl⟩
    · exact Keeps.run (keeps_serviceMethod owner generate now fun snapshot h => hr ⟨snapshot, h⟩) hk

/-- A run of the service is a run of its store. -/
theorem ServiceRun.run (h : ServiceRun snapshots s s') (hk : s.WellKeyed) :
    Run (serviceRules snapshots) s s' := by
  induction h with
  | refl => exact .refl
  | tail _ hstep ih => exact ih.trans (hstep.run (ih.toLedger hk).1)

/-- The owners of locks and bindings agree in every run of the service. -/
theorem Run.owned_of_service (h : Run (serviceRules snapshots) empty s) : s.toLedger.Owned :=
  h.invariant .empty fun _ _ hl hm => hl.move (fun _ _ hu => False.elim hu) hm

/-- The state after calls of the service, with the owner label and the generator given, at time
`now`. -/
def afterCalls (owner : String) (generate : ℕ → OperationId) (now : ℕ)
    (ms : List TxoscopeService.Method) (s : InMemoryStateStore) : InMemoryStateStore :=
  ms.foldl (fun s m => (Program.run exec (m.program owner generate fun _ => now) s).2) s

theorem serviceRun_afterCalls (owner : String) (generate : ℕ → OperationId) (now : ℕ)
    {ms : List TxoscopeService.Method} (h : ∀ m ∈ ms, MethodOf snapshots m)
    (s : InMemoryStateStore) : ServiceRun snapshots s (afterCalls owner generate now ms s) := by
  induction ms generalizing s with
  | nil => exact .refl
  | cons m ms ih =>
    exact .head (.method owner generate (fun _ => now) m (h m List.mem_cons_self))
      (ih (fun m hm => h m (List.mem_cons_of_mem _ hm)) _)

namespace Sample

def reserveCapabilities : CapabilitySet := {.reserveSupport, .singleTargetReserve}

def observed : ObservedUtxo :=
  ⟨outpoint, accountId, scopeId, 1000, .confirmed 1 1, .unspent⟩

def snapshot : ObservationSnapshot := ⟨1, .full, [observed]⟩

/-- One account with one scope, in which one confirmed output is discovered. -/
def setup : List TxoscopeService.Method :=
  [.bootstrap ⟨"owner", [⟨accountId, "account", reserveCapabilities⟩],
    [⟨scopeId, accountId, "descriptor", "derivation", reserveCapabilities, 0⟩]⟩,
    .reconcileSnapshot snapshot]

def planned : TxoscopeService.Method := .planExactOutpoints ⟨operationId, accountId, [outpoint]⟩

/-- The calls of a sample service, all at time zero. -/
def served (ms : List TxoscopeService.Method) : InMemoryStateStore :=
  afterCalls "owner" (fun _ => ⟨"reservation"⟩) 0 (setup ++ ms) empty

theorem snapshot_distinct : snapshot.Distinct := List.nodup_singleton _

theorem served_run {ms : List TxoscopeService.Method}
    (h : ∀ m ∈ ms, MethodOf ObservationSnapshot.Distinct m) :
    ServiceRun ObservationSnapshot.Distinct empty (served ms) := by
  refine serviceRun_afterCalls _ _ _ (fun m hm => ?_) _
  rcases List.mem_append.mp hm with hm | hm
  · simp only [setup, List.mem_cons, List.not_mem_nil, or_false] at hm
    rcases hm with rfl | rfl
    · trivial
    · exact snapshot_distinct
  · exact h m hm

end Sample

end InMemoryStateStore

end Txoscope
