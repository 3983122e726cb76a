import Txoscope.Memory.Orderly
import Txoscope.Service.Failing

/-!
# No corruption

The service reports a corrupted state where an assumption of one layer about another fails: a
selection whose inputs and effects do not match, a candidate that has disappeared, a lease without
an expiry. Every state that a service reaches is orderly and its leases expire, so no method ends
with such a report (`never_corrupted`).
-/

namespace Txoscope

namespace InMemoryStateStore

open TxoscopeService

variable {s s' : InMemoryStateStore} {owner : String} {now : ℕ → ℕ}

/-! ## Explicit selections and reservations -/

/-- An explicit selection that passes its checks is well-formed. -/
theorem explicitSelection_wellFormed {req : ApplyExplicitSelectionRequest}
    (h : checkExplicit req.selectedOutpoints = .ok ()) :
    (ApplyExplicitSelectionRequest.selection req).WellFormed := by
  have houtpoints : (ApplyExplicitSelectionRequest.selection req).effectOutpoints =
      req.selectedOutpoints := by
    unfold OperationSelection.effectOutpoints ApplyExplicitSelectionRequest.selection
    rw [List.map_map]
    exact List.map_id _
  unfold checkExplicit at h
  split_ifs at h with hempty
  refine .of_effects houtpoints (fun hnil => hempty ?_) (Orchestrator.checkUnique_eq_ok_iff.mp h).1
  rw [show req.selectedOutpoints = [] from hnil]
  rfl

theorem intact_applyExplicitSelection (h : s.Orderly) (req : ApplyExplicitSelectionRequest) :
    s.Intact (applyExplicitSelection owner req) fun _ => True := by
  refine .bind (Q := fun _ t => t.Orderly ∧ checkExplicit req.selectedOutpoints = .ok ())
    (.ofExcept (fun u hu => ⟨h, hu⟩) fun e he => ⟨(checkExplicit_ofRequest _ e he).sane, h⟩)
    fun u t ht => ?_
  refine .bind (intact_call ht.1 (.getScope req.changeScopeId) trivial) fun scope t' ht' => ?_
  cases scope with
  | none => exact .throw ⟨trivial, ht'.1⟩
  | some scope =>
    exact .bind (intact_applySelection ht'.1 (explicitSelection_wellFormed ht.2)) fun _ _ hu =>
      .pure hu

theorem intact_manualReservation (h : s.Orderly) {selection : OperationSelection}
    (hw : selection.WellFormed) (hexpires : selection.expiresAt.isSome = true) :
    s.Intact (Program.ofExcept (manualReservationFromSelection selection)) fun _ => True := by
  obtain ⟨r, hr⟩ := manualReservationFromSelection_eq_ok hw.nonempty hexpires
  rw [hr]
  exact .pure ⟨h, trivial⟩

theorem intact_reserveManualUtxo (h : s.Orderly) (generate : ℕ → OperationId) (now : ℕ)
    (req : ReserveManualUtxoRequest) :
    s.Intact (reserveManualUtxo owner generate now req) fun _ => True :=
  .bind (intact_prepareOperation h _) fun _ _ ht =>
    intact_manualReservation ht.1 ht.2.1 (by rw [ht.2.2]; rfl)

/-! ## Leases -/

theorem intact_getActiveManualReservation (h : s.Sound) (ho : s.Orderly) (now : ℕ) (o : OutPoint) :
    s.Intact (getActiveManualReservation now o) fun _ => True := by
  refine intact_of_records ho (OnlySettles.records (getActiveManualReservation_onlySettles now o))
    fun e t hrun => ?_
  obtain ⟨r, hok⟩ := run_getActiveManualReservation h now o
  rw [hrun] at hok
  cases hok

theorem Orderly.afterExpiry (h : s.Sound) (ho : s.Orderly) (now : ℕ → ℕ)
    (outpoints : List OutPoint) : (s.afterExpiry now outpoints).Orderly := by
  have hexpired := ho.run
    (OnlySettles.records (expireStaleCandidateReservations_onlySettles now outpoints))
  rw [run_expireStaleCandidateReservations h] at hexpired
  exact hexpired

theorem intact_reserveFirstAvailable (h : s.Sound) (ho : s.Orderly) (generate : ℕ → OperationId)
    (req : ReserveFirstAvailableManualUtxoRequest) :
    s.Intact (reserveFirstAvailableManualUtxo owner generate now req) fun _ => True := by
  refine .bind_of_run (run_expireStaleCandidateReservations h now _) ?_
  refine .attempt_bind (intact_prepareOperation (ho.afterExpiry h now _) _)
    (fun selection t ht => ?_) fun e t he => ?_
  · exact .bind (intact_manualReservation ht.1 ht.2.1 (by rw [ht.2.2]; rfl)) fun _ _ hu => .pure hu
  · split
    · rename_i heq
      cases heq
    · exact .pure ⟨he.2, trivial⟩
    · rename_i heq
      cases heq
      exact .throw he

/-! ## Assets -/

theorem previewAssetSelection_sane (h : s.Sound) {req : AssetSelectionRequest} {e : DomainError}
    (hrun : Program.run exec (previewAssetSelection now req) s = (.error e, s')) : e.Sane := by
  rw [run_previewAssetSelection h] at hrun
  cases hc : checkAssetRequest req with
  | error e' =>
    rw [hc] at hrun
    cases hrun
    rcases checkAssetRequest_error req e hc with ⟨rfl, -⟩ | hof
    · trivial
    · exact DomainError.OfRequest.sane hof
  | ok u =>
    rw [hc] at hrun
    obtain ⟨hselected, -⟩ := Prod.mk.inj hrun
    rcases selectedAssets_error hc hselected with hof | ⟨rejections, rfl, -⟩
    · exact hof.sane
    · trivial

/-- What a preview selects is distinct. -/
theorem intact_previewAssetSelection (h : s.Sound) (ho : s.Orderly) (req : AssetSelectionRequest) :
    s.Intact (previewAssetSelection now req) fun selected => selected.Nodup := by
  have hpreview := intact_of_records ho
    (OnlySettles.records (previewAssetSelection_onlySettles now req))
    fun _ _ => previewAssetSelection_sane h
  refine .of_run (fun selected t hrun => ⟨(hpreview.result hrun).1, ?_⟩)
    fun e t hrun => hpreview.error hrun
  obtain ⟨-, rfl, hselected⟩ := previewAssetSelection_ok h hrun
  exact (selectedAssets_ok (h.releasing _).keyed hselected).2.1

theorem intact_planAssetSelection (h : s.Sound) (ho : s.Orderly)
    (req : PlanAssetSelectionRequest) :
    s.Intact (planAssetSelection owner now req) fun _ => True := by
  refine .bind (intact_previewAssetSelection h ho req.selection) fun selected t ht => ?_
  cases selected with
  | nil => exact .throw ⟨trivial, ht.1⟩
  | cons first rest =>
    refine .bind (intact_call ht.1 (.getUtxo first) trivial) fun utxo t' ht' => ?_
    cases utxo with
    | none => exact .throw ⟨trivial, ht'.1⟩
    | some utxo =>
      have hw : (assetSelection req (first :: rest) utxo.scopeId).WellFormed :=
        .of_effects (assetSelection_outpoints _ _ _) (List.cons_ne_nil _ _) ht.2
      exact .bind (intact_applySelection ht'.1 hw) fun _ _ hu => .pure hu

/-! ## Every call -/

/-- No method that writes reports a corrupted state, and the state it leaves is orderly. -/
theorem intact_method (h : s.Sound) (ho : s.Orderly) (owner : String)
    (generate : ℕ → OperationId) (now : ℕ → ℕ) (m : Method) :
    s.Intact (m.program owner generate now) fun _ => True := by
  have hdrop : ∀ {α : Type} {p : Client α}, s.Intact p (fun _ => True) →
      s.Intact (do let _ ← p : Client Unit) fun _ => True := fun hp => intact_map hp _
  cases m with
  | bootstrap cfg =>
    exact .bind (intact_forEach ho (fun _ _ ht => intact_call ht (.putAccount _) trivial) _)
      fun _ _ ht => intact_forEach ht.1 (fun _ _ hu => intact_call hu (.putScope _) trivial) _
  | reconcileSnapshot snapshot =>
    refine hdrop (.bind (intact_call ho (.advanceTick 1) trivial) fun _ t ht => ?_)
    refine .bind (intact_reconcileSnapshot ht.1 snapshot) fun plan t' ht' => ?_
    exact intact_map (intact_call ht'.1 .currentTick trivial) _
  | planExactOutpoints req =>
    exact hdrop (intact_map (intact_prepareOperation ho _) _)
  | applyExplicitSelection req => exact hdrop (intact_applyExplicitSelection ho req)
  | reserveSpecificUtxo req =>
    exact hdrop (intact_map (intact_prepareOperation ho _) _)
  | reserveManualUtxo req => exact hdrop (intact_reserveManualUtxo ho generate _ req)
  | reserveFirstAvailableManualUtxo req =>
    exact hdrop (intact_reserveFirstAvailable h ho generate req)
  | getActiveManualReservation o => exact hdrop (intact_getActiveManualReservation h ho _ o)
  | previewAssetSelection req => exact intact_map (intact_previewAssetSelection h ho req) _
  | planAssetSelection req => exact hdrop (intact_planAssetSelection h ho req)
  | releaseOperation id => exact hdrop (intact_releaseOperation ho)
  | completeOperation id phase outpoints =>
    exact hdrop (intact_completeOperation ho phase outpoints)
  | cleanupStaleReservations maxAge => exact hdrop (intact_cleanupStaleReservations ho maxAge)

/-- Nor does a query. -/
theorem intact_query (h : s.Sound) (ho : s.Orderly) (q : Query) :
    s.Intact q.program fun _ => True := by
  have hdrop : ∀ {α : Type} {p : Client α}, s.Intact p (fun _ => True) →
      s.Intact (do let _ ← p : Client Unit) fun _ => True := fun hp => intact_map hp _
  have hstatus : ∀ o, s.Intact (Orchestrator.utxoStatus o) fun _ => True := by
    intro o
    refine .of_run (fun a t hrun => ?_) fun e t hrun => ?_
    all_goals
      rw [run_utxoStatus_eq] at hrun
      cases hrun
    exact ⟨ho, trivial⟩
  cases q with
  | verifyPlannedInputs id outpoints => exact intact_verifyPlannedInputs ho outpoints
  | getManualReservation o =>
    exact .bind_of_run (run_getManualReservation h o) (.pure ⟨ho, trivial⟩)
  | isOutpointSelectable o => exact hdrop (intact_map (hstatus o) _)
  | utxoStatus o => exact hdrop (hstatus o)
  | getPlannedSelection id =>
    exact hdrop (intact_map (intact_call ho (.getIntent id) trivial) _)
  | operationHasExpiry id =>
    exact hdrop (intact_map (intact_call ho (.getOperation id) trivial) _)
  | utxoAccountId o | managedUtxo o | owningOperationIdForOutpoint o
  | selectedOperationIdForOutpoint o | isOutpointSpent o =>
    exact hdrop (intact_map (intact_call ho (.getUtxo o) trivial) _)

theorem ServiceRun.orderly {snapshots : ObservationSnapshot → Prop}
    (h : ServiceRun snapshots empty s) : s.Orderly := by
  induction h with
  | refl => exact .empty
  | tail hrun hstep ih =>
    cases hstep with
    | method owner generate now m hm =>
      exact (intact_method (ServiceRun.sound hrun) ih owner generate now m).orderly
    | reorder hsame => exact ih.sameContents hsame

/-- Internal corruption is unreachable: after any calls of a service that started with an empty
store, no method, query or proposal ends with a report of it. Every selection on record has distinct
inputs that match its effects, and every manual reservation in `Selected` has an expiry. -/
theorem never_corrupted {snapshots : ObservationSnapshot → Prop}
    (h : ServiceRun snapshots empty s) :
    (∀ (owner : String) (generate : ℕ → OperationId) (now : ℕ → ℕ) (m : Method) (reason : String),
      (Program.run exec (m.program owner generate now) s).1 ≠ .error (.corruptedState reason)) ∧
    (∀ (q : Query) (reason : String),
      (Program.run exec q.program s).1 ≠ .error (.corruptedState reason)) ∧
    (∀ (request : SelectionRequest) (reason : String),
      (Program.run exec (Orchestrator.proposeOperation request) s).1 ≠
        .error (.corruptedState reason)) ∧
    (∀ id i, s.getIntent id = some i → i.selection.WellFormed) ∧
    ∀ o k, s.getLock o = some k → k.purpose = .manualReservation → s.InSelected k.operationId →
      k.expiresAt.isSome = true := by
  have hsound := h.sound
  have ho := h.orderly
  refine ⟨fun owner generate now m => (intact_method hsound ho owner generate now m).sane,
    fun q => (intact_query hsound ho q).sane, fun request => ?_, ho.wellFormed,
    fun o k => hsound.lease_expires⟩
  exact (intact_of_reads ho (Orchestrator.proposeOperation_onlyReads request)
    (proposeOperation_sane ho.keyed request)).sane

/-- The output that is reserved has a lease, and is refused to a second reservation. -/
theorem never_corrupted_sample : ∃ k e,
    Sample.underLease.getLock Sample.outpoint = some k ∧ k.expiresAt.isSome = true ∧
    (Program.run exec (Method.program "owner" (fun _ => ⟨"second"⟩) (fun _ => 1)
      (.reserveManualUtxo ⟨Sample.accountId, Sample.outpoint, 5⟩)) Sample.underLease).1 =
        .error e ∧ e ≠ .corruptedState "" := by
  obtain ⟨hmethods, -, -, -, hleases⟩ := never_corrupted Sample.underLease_run
  refine ⟨_, _, rfl, hleases Sample.outpoint _ rfl rfl ⟨_, rfl, rfl⟩, rfl, fun he => ?_⟩
  exact hmethods "owner" (fun _ => ⟨"second"⟩) (fun _ => 1)
    (.reserveManualUtxo ⟨Sample.accountId, Sample.outpoint, 5⟩) "" (congrArg Except.error he)

end InMemoryStateStore

end Txoscope
