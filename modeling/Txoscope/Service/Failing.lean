import Txoscope.Service.Assets

/-!
# Failed planning

The methods that plan or reserve check, expire leases, record an intent and commit, in orders of
their own. `failed_planning` says what such a call leaves behind when it fails: nothing after an
invalid request, and otherwise no more than the release of the leases that it found to have run
out and the intent of its own operation.
-/

namespace Txoscope

namespace TxoscopeService

/-! ## Planning calls -/

namespace Method

/-- The methods that plan or reserve inputs. -/
def Planning : Method → Prop
  | planExactOutpoints _ | applyExplicitSelection _ | reserveSpecificUtxo _ | reserveManualUtxo _
  | reserveFirstAvailableManualUtxo _ | previewAssetSelection _ | planAssetSelection _ => True
  | _ => False

/-- The operation a method plans for, which it may generate. -/
def plannedFor (generate : ℕ → OperationId) (now : ℕ → ℕ) : Method → Option OperationId
  | planExactOutpoints req => some req.operationId
  | applyExplicitSelection req => some req.operationId
  | reserveSpecificUtxo req => some req.operationId
  | reserveManualUtxo _ => some (generate (now 0))
  | reserveFirstAvailableManualUtxo req => some (generate (now req.candidateOutpoints.length))
  | planAssetSelection req => some req.operationId
  | _ => none

/-- The candidates whose leases a method looks at, in its order. -/
def candidates : Method → List OutPoint
  | reserveFirstAvailableManualUtxo req => req.candidateOutpoints
  | previewAssetSelection req => sortByText (req.candidates.map (·.outpoint))
  | planAssetSelection req => sortByText (req.selection.candidates.map (·.outpoint))
  | _ => []

/-- A selection of no amount of an asset, which is refused before the leases are looked at. -/
def AsksForNothing : Method → Prop
  | previewAssetSelection req => req.assetAmount = 0
  | planAssetSelection req => req.selection.assetAmount = 0
  | _ => False

end Method

end TxoscopeService

theorem DomainError.OfCommit.not_ofRequest {e : DomainError} (h : e.OfCommit) : ¬ e.OfRequest := by
  rintro ⟨reason, rfl⟩
  exact h

namespace InMemoryStateStore

open TxoscopeService

variable {s s' t : InMemoryStateStore} {e : DomainError} {id : OperationId} {owner : String}
  {now : ℕ → ℕ}

/-- Outputs, locks, operations and every intent but the planned one are as before. -/
structure KeptBut (s : InMemoryStateStore) (planned : Option OperationId)
    (s' : InMemoryStateStore) : Prop where
  cell : s'.cell = s.cell
  operation : s'.getOperation = s.getOperation
  intent : ∀ id, planned ≠ some id → s'.getIntent id = s.getIntent id

theorem KeptBut.refl (s : InMemoryStateStore) (planned : Option OperationId) :
    s.KeptBut planned s := ⟨rfl, rfl, fun _ _ => rfl⟩

theorem IntentOnly.keptBut (h : s.IntentOnly id s') : s.KeptBut (some id) s' :=
  ⟨h.cell, h.operation, fun id' hne => h.intent id' fun heq => hne (congrArg some heq.symm)⟩

/-- What a failed call leaves: an invalid request changes nothing, nor does one for nothing, and any
other may have expired its candidates and recorded its intent. -/
def Spared (s : InMemoryStateStore) (now : ℕ → ℕ) (m : Method) (planned : Option OperationId)
    (e : DomainError) (s' : InMemoryStateStore) : Prop :=
  (e.OfRequest ∧ s' = s) ∨ (¬ e.OfRequest ∧ m.AsksForNothing ∧ s' = s) ∨
    (¬ e.OfRequest ∧ ¬ m.AsksForNothing ∧
      (s.afterExpiry now m.candidates).KeptBut planned s')

/-! ## Requests -/

/-- A request for a new operation that fails has changed nothing. -/
theorem prepareOperation_spared (hk : s.WellKeyed) {request : SelectionRequest}
    (h : Program.run exec (Orchestrator.prepareOperation owner request) s = (.error e, s'))
    (hi : s.getIntent request.operationId = none)
    (hop : s.getOperation request.operationId = none) :
    Program.eval exec (Orchestrator.proposeOperation request) s = .error e ∧ s' = s := by
  cases hpropose : Program.eval exec (Orchestrator.proposeOperation request) s with
  | ok selection =>
    obtain ⟨t, hok, -⟩ := prepareOperation_ok hk owner hi hop hpropose
    rw [h] at hok
    cases hok
  | error e' =>
    rw [prepareOperation_error owner hpropose] at h
    cases h
    exact ⟨rfl, rfl⟩

/-- A manual reservation is made of an input and an expiry. -/
theorem manualReservationFromSelection_eq_ok {selection : OperationSelection}
    (hne : selection.selectedOutpoints ≠ []) (hexpires : selection.expiresAt.isSome = true) :
    ∃ r, manualReservationFromSelection selection = .ok r := by
  obtain ⟨first, rest, houtpoints⟩ := List.exists_cons_of_ne_nil hne
  obtain ⟨expiresAt, hsome⟩ := Option.isSome_iff_exists.mp hexpires
  unfold manualReservationFromSelection
  rw [houtpoints, hsome]
  exact ⟨_, rfl⟩

/-- A manual reservation is made from what was prepared for it. -/
theorem manualReservationFromSelection_ok (hk : s.WellKeyed) {request : SelectionRequest}
    {selection : OperationSelection}
    (h : Program.run exec (Orchestrator.prepareOperation owner request) s = (.ok selection, t))
    (hi : s.getIntent request.operationId = none)
    (hop : s.getOperation request.operationId = none)
    (hexpires : request.intoOperationRequest.locking.expiresAt.isSome = true) :
    ∃ r, manualReservationFromSelection selection = .ok r := by
  cases hpropose : Program.eval exec (Orchestrator.proposeOperation request) s with
  | error e =>
    rw [prepareOperation_error owner hpropose] at h
    cases h
  | ok selection' =>
    obtain ⟨t', hok, hproposed, -⟩ := prepareOperation_ok hk owner hi hop hpropose
    rw [h] at hok
    cases hok
    obtain ⟨ctx, inputs, rfl, hinputs, -⟩ := hproposed.inputs
    exact manualReservationFromSelection_eq_ok hinputs.nonempty hexpires

/-- Without candidates and without a change, whatever the error is. -/
theorem Spared.refl {m : Method} (hcandidates : m.candidates = []) (hnot : ¬ m.AsksForNothing)
    (planned : Option OperationId) (e : DomainError) : s.Spared now m planned e s := by
  by_cases he : e.OfRequest
  · exact .inl ⟨he, rfl⟩
  · refine .inr (.inr ⟨he, hnot, ?_⟩)
    rw [hcandidates]
    exact .refl s planned

/-! ## The first available candidate -/

/-- A request for the first available candidate is never invalid. -/
theorem proposeOperation_firstAvailable (id : OperationId) (accountId : AccountId)
    (candidates : List OutPoint) (expiresAt : ℕ) :
    (Orchestrator.proposeOperation (.manualReservationFirstAvailable id accountId candidates
      expiresAt)).Throws (¬ DomainError.OfRequest ·) := by
  refine .bind (.pure ()) fun _ => .bind (.invoke _) fun account => ?_
  cases account with
  | none => exact .throw (by simp [DomainError.OfRequest])
  | some account =>
    dsimp only
    split_ifs
    · exact .throw (by simp [DomainError.OfRequest])
    · refine .bind (eligibleScopes_throws _ _ _) fun eligible => ?_
      split_ifs
      · exact .throw (by simp [DomainError.OfRequest])
      · refine .bind (.bind (firstSelectable_throws _) fun first => ?_) fun _ => .pure _
        cases first with
        | none => exact .throw (by simp [DomainError.OfRequest])
        | some first =>
          exact withChangeScope_throws (List.cons_ne_nil _ _) fun _ => by simp [DomainError.OfRequest]

/-- A reservation of the first available candidate that fails has expired the candidates. -/
theorem reserveFirstAvailable_spared (h : s.Sound) {generate : ℕ → OperationId}
    {req : ReserveFirstAvailableManualUtxoRequest}
    (hi : s.getIntent (generate (now req.candidateOutpoints.length)) = none)
    (hop : s.getOperation (generate (now req.candidateOutpoints.length)) = none)
    (hrun : Program.run exec (reserveFirstAvailableManualUtxo owner generate now req) s =
      (.error e, s')) :
    ¬ e.OfRequest ∧ s' = s.afterExpiry now req.candidateOutpoints := by
  have hsound : (s.afterExpiry now req.candidateOutpoints).Sound := h.releasing _
  have hop' := getOperation_afterExpiry_of_none hop now req.candidateOutpoints
  have hi' : (s.afterExpiry now req.candidateOutpoints).getIntent
      (generate (now req.candidateOutpoints.length)) = none :=
    (congrFun (releasing_frame _ s).1 _).trans hi
  unfold reserveFirstAvailableManualUtxo at hrun
  rw [Program.run_bind_ok _ (run_expireStaleCandidateReservations h now _)] at hrun
  generalize s.afterExpiry now req.candidateOutpoints = t at *
  dsimp only at hrun
  rw [Program.run_bind_ok _ (Program.run_attempt exec _ t)] at hrun
  obtain ⟨⟨result, t'⟩, hprepare⟩ : ∃ x, Program.run exec (Orchestrator.prepareOperation owner
    (.manualReservationFirstAvailable (generate (now req.candidateOutpoints.length))
      req.targetAccountId req.candidateOutpoints
        (reservationExpiry (now req.candidateOutpoints.length) req.ttlSecs))) t = x := ⟨_, rfl⟩
  rw [hprepare] at hrun
  cases result with
  | ok selection =>
    obtain ⟨r, hr⟩ := manualReservationFromSelection_ok hsound.keyed hprepare hi' hop' rfl
    dsimp only at hrun
    rw [hr] at hrun
    cases hrun
  | error e' =>
    obtain ⟨hpropose, rfl⟩ := prepareOperation_spared hsound.keyed hprepare hi' hop'
    have hnot : ¬ e'.OfRequest := Program.Throws.of_run reads_ok
      (Orchestrator.proposeOperation_onlyReads _) (proposeOperation_firstAvailable _ _ _ _) hpropose
    dsimp only at hrun
    split at hrun
    · rename_i heq
      cases heq
    · cases hrun
    · rename_i heq
      cases heq
      cases hrun
      exact ⟨hnot, rfl⟩

/-! ## Assets -/

/-- A preview that fails blames the request, asks for nothing or has expired the candidates. -/
theorem previewAssetSelection_spared (h : s.Sound) {req : AssetSelectionRequest}
    (hrun : Program.run exec (previewAssetSelection now req) s = (.error e, s')) :
    s.Spared now (.previewAssetSelection req) none e s' := by
  rw [run_previewAssetSelection h] at hrun
  cases hc : checkAssetRequest req with
  | error e' =>
    rw [hc] at hrun
    obtain ⟨he, rfl⟩ := Prod.mk.inj hrun
    cases he
    rcases checkAssetRequest_error req e hc with ⟨rfl, hnone⟩ | hof
    · have hnot : ¬ DomainError.insufficientFunds.OfRequest := by simp [DomainError.OfRequest]
      by_cases hamount : req.assetAmount = 0
      · exact .inr (.inl ⟨hnot, hamount, rfl⟩)
      · have hcandidates : (Method.previewAssetSelection req).candidates = [] := by
          change sortByText (req.candidates.map (·.outpoint)) = []
          rw [hnone.resolve_left hamount]
          rfl
        exact .refl hcandidates hamount none _
    · exact .inl ⟨hof, rfl⟩
  | ok u =>
    rw [hc] at hrun
    obtain ⟨hselected, rfl⟩ := Prod.mk.inj hrun
    have hamount := (AssetSelectionPolicy.validateInputs_eq_ok_iff.mp (checkAssetRequest_ok hc)).1
    refine .inr (.inr ⟨?_, hamount, .refl _ none⟩)
    rintro ⟨reason, rfl⟩
    rcases selectedAssets_error hc hselected with hinputs | ⟨rejections, heq, -⟩
    · exact hinputs.ofInputs
    · cases heq

/-- A plan for a new operation fails where its preview does. -/
theorem planAssetSelection_spared (h : s.Sound) {req : PlanAssetSelectionRequest}
    (hi : s.getIntent req.operationId = none) (hop : s.getOperation req.operationId = none)
    (hrun : Program.run exec (planAssetSelection owner now req) s = (.error e, s')) :
    s.Spared now (.previewAssetSelection req.selection) none e s' := by
  obtain ⟨⟨result, t⟩, hpreview⟩ : ∃ x, Program.run exec
      (previewAssetSelection now req.selection) s = x := ⟨_, rfl⟩
  cases result with
  | ok selected =>
    obtain ⟨scopeId, t', hplan, -⟩ := planAssetSelection_ok h owner hi hop hpreview
    rw [hrun] at hplan
    cases hplan
  | error e' =>
    unfold planAssetSelection at hrun
    rw [Program.run_bind_error _ hpreview] at hrun
    cases hrun
    exact previewAssetSelection_spared h hpreview

/-! ## Explicit selections -/

theorem checkExplicit_ofRequest (outpoints : List OutPoint) :
    FailsOnly DomainError.OfRequest (checkExplicit outpoints) := by
  unfold checkExplicit
  split_ifs
  · exact .error ⟨_, rfl⟩
  · exact checkUnique_ofRequest _ _ _

/-- An explicit selection that fails has at most recorded its intent. -/
theorem applyExplicitSelection_spared {req : ApplyExplicitSelectionRequest}
    (hi : s.getIntent req.operationId = none) (hop : s.getOperation req.operationId = none)
    (hrun : Program.run exec (applyExplicitSelection owner req) s = (.error e, s')) :
    s.Spared now (.applyExplicitSelection req) (some req.operationId) e s' := by
  unfold applyExplicitSelection at hrun
  cases hcheck : checkExplicit req.selectedOutpoints with
  | error e' =>
    rw [hcheck] at hrun
    cases hrun
    exact .inl ⟨checkExplicit_ofRequest _ e hcheck, rfl⟩
  | ok u =>
    rw [hcheck] at hrun
    change Program.run exec ((StoreCall.getScope req.changeScopeId).invoke >>= _) s = _ at hrun
    have hread : Program.run exec (StoreCall.getScope req.changeScopeId).invoke s =
      (.ok (s.getScope req.changeScopeId), s) := rfl
    rw [Program.run_bind_ok _ hread] at hrun
    cases hscope : s.getScope req.changeScopeId with
    | none =>
      rw [hscope] at hrun
      cases hrun
      exact .refl rfl id _ _
    | some scope =>
      rw [hscope] at hrun
      have happly := Program.run_error_of_bind exec hrun fun _ t _ => ⟨_, t, rfl⟩
      obtain ⟨hof, honly⟩ := applySelection_error hi hop happly
      exact .inr (.inr ⟨hof.not_ofRequest, id, honly.keptBut⟩)

/-! ## Every planning call -/

/-- What a planning call for a new operation leaves when it fails. -/
theorem spared_of_run (h : s.Sound) {generate : ℕ → OperationId} {m : Method} (hm : m.Planning)
    (hnew : ∀ id, m.plannedFor generate now = some id →
      s.getIntent id = none ∧ s.getOperation id = none)
    (hrun : Program.run exec (m.program owner generate now) s = (.error e, s')) :
    s.Spared now m (m.plannedFor generate now) e s' := by
  cases m with
  | planExactOutpoints req =>
    obtain ⟨hi, hop⟩ := hnew _ rfl
    have hplan := Program.run_error_of_bind exec hrun fun _ t _ => ⟨(), t, rfl⟩
    have hprepare := Program.run_error_of_bind exec hplan fun _ t _ => ⟨_, t, rfl⟩
    obtain ⟨-, rfl⟩ := prepareOperation_spared h.keyed hprepare hi hop
    exact .refl rfl id _ e
  | reserveSpecificUtxo req =>
    obtain ⟨hi, hop⟩ := hnew _ rfl
    have hplan := Program.run_error_of_bind exec hrun fun _ t _ => ⟨(), t, rfl⟩
    have hprepare := Program.run_error_of_bind exec hplan fun _ t _ => ⟨_, t, rfl⟩
    obtain ⟨-, rfl⟩ := prepareOperation_spared h.keyed hprepare hi hop
    exact .refl rfl id _ e
  | reserveManualUtxo req =>
    obtain ⟨hi, hop⟩ := hnew _ rfl
    have hreserve := Program.run_error_of_bind exec hrun fun _ t _ => ⟨(), t, rfl⟩
    have hprepare := Program.run_error_of_bind exec hreserve fun selection t hok => by
      obtain ⟨r, hr⟩ := manualReservationFromSelection_ok h.keyed hok hi hop rfl
      exact ⟨r, t, congrArg (fun result => (result, t)) hr⟩
    obtain ⟨-, rfl⟩ := prepareOperation_spared h.keyed hprepare hi hop
    exact .refl rfl id _ e
  | applyExplicitSelection req =>
    obtain ⟨hi, hop⟩ := hnew _ rfl
    exact applyExplicitSelection_spared hi hop
      (Program.run_error_of_bind exec hrun fun _ t _ => ⟨(), t, rfl⟩)
  | reserveFirstAvailableManualUtxo req =>
    obtain ⟨hi, hop⟩ := hnew _ rfl
    obtain ⟨hnot, rfl⟩ := reserveFirstAvailable_spared h hi hop
      (Program.run_error_of_bind exec hrun fun _ t _ => ⟨(), t, rfl⟩)
    exact .inr (.inr ⟨hnot, id, .refl _ _⟩)
  | previewAssetSelection req =>
    exact previewAssetSelection_spared h
      (Program.run_error_of_bind exec hrun fun _ t _ => ⟨(), t, rfl⟩)
  | planAssetSelection req =>
    obtain ⟨hi, hop⟩ := hnew _ rfl
    rcases planAssetSelection_spared h hi hop
      (Program.run_error_of_bind exec hrun fun _ t _ => ⟨(), t, rfl⟩) with
      hof | hzero | ⟨hnot, hamount, hkept⟩
    · exact .inl hof
    · exact .inr (.inl hzero)
    · exact .inr (.inr ⟨hnot, hamount, hkept.cell, hkept.operation, fun id _ =>
        hkept.intent id (by simp)⟩)
  | bootstrap | reconcileSnapshot | getActiveManualReservation | releaseOperation
  | completeOperation | cleanupStaleReservations => exact hm.elim

/-- Failed planning leaves ownership untouched: a planning call for a new operation changes nothing
when it blames the request or is asked for nothing. Otherwise it has released exactly the operations
in `Selected` whose lease on one of its candidates has run out, and beyond that changed no output,
lock, operation or intent of another operation. -/
theorem failed_planning {snapshots : ObservationSnapshot → Prop}
    (h : ServiceRun snapshots empty s) (owner : String) (generate : ℕ → OperationId)
    (now : ℕ → ℕ) {m : Method} (hm : m.Planning)
    (hnew : ∀ id, m.plannedFor generate now = some id →
      s.getIntent id = none ∧ s.getOperation id = none)
    (hrun : Program.run exec (m.program owner generate now) s = (.error e, s')) :
    ((∃ reason, e = .invalidRequest reason) → s' = s) ∧
    (m.AsksForNothing → s' = s) ∧
    ((¬ ∃ reason, e = .invalidRequest reason) → ¬ m.AsksForNothing →
      ∃ ids : List OperationId, ids.Nodup ∧ (∀ id, id ∈ ids ↔ s.RunsOut now m.candidates id) ∧
        (∀ id ∈ ids, s.InSelected id) ∧
        s'.cell = (s.releasing ids).cell ∧ s'.getOperation = (s.releasing ids).getOperation ∧
        ∀ id, m.plannedFor generate now ≠ some id → s'.getIntent id = s.getIntent id) := by
  have hspared := spared_of_run h.sound hm hnew hrun
  refine ⟨fun hof => ?_, fun hzero => ?_, fun hnot hamount => ?_⟩
  · rcases hspared with ⟨-, heq⟩ | ⟨hnot, -⟩ | ⟨hnot, -⟩
    · exact heq
    · exact (hnot hof).elim
    · exact (hnot hof).elim
  · rcases hspared with ⟨-, heq⟩ | ⟨-, -, heq⟩ | ⟨-, hamount, -⟩
    · exact heq
    · exact heq
    · exact (hamount hzero).elim
  · rcases hspared with ⟨hof, -⟩ | ⟨-, hzero, -⟩ | ⟨-, -, hkept⟩
    · exact (hnot hof).elim
    · exact (hamount hzero).elim
    · refine ⟨expiring now m.candidates s, nodup_expiring _ _ _, fun _ => mem_expiring_iff,
        fun id hid => ?_, hkept.cell, hkept.operation, fun id hne => ?_⟩
      · obtain ⟨i, o, r, -, hr, rfl, -⟩ := mem_expiring_iff.mp hid
        obtain ⟨k, -, -, hselected, t, -, rfl⟩ := leaseOn_eq_some_iff.mp hr
        exact hselected
      · exact (hkept.intent id hne).trans (congrFun (releasing_frame _ s).1 id)

namespace Sample

/-- The output is reserved at time zero, for five seconds. -/
def underLease : InMemoryStateStore := served [.reserveManualUtxo ⟨accountId, outpoint, 5⟩]

theorem underLease_run : ServiceRun ObservationSnapshot.Distinct empty underLease :=
  served_run fun m hm => by
    rw [List.mem_singleton.mp hm]
    trivial

/-- A selection of more than the output carries. -/
def overdrawn : AssetSelectionRequest :=
  ⟨accountId, [⟨outpoint, 1⟩], 2, 0, ⟨none, true, false⟩⟩

def nothing : AssetSelectionRequest := { overdrawn with assetAmount := 0 }

end Sample

theorem failed_planning_sample : ∃ ids : List OperationId, ids.Nodup ∧
    (∀ id, id ∈ ids ↔ Sample.underLease.RunsOut (fun _ => 10) [Sample.outpoint] id) ∧
    (Program.run exec (previewAssetSelection (fun _ => 10) Sample.overdrawn)
      Sample.underLease).2.cell = (Sample.underLease.releasing ids).cell := by
  obtain ⟨ids, hnd, hids, -, hcell, -⟩ := (failed_planning Sample.underLease_run "owner"
    (fun _ => Sample.reservationId) (fun _ => 10) (m := .previewAssetSelection Sample.overdrawn)
    (e := .insufficientAsset 2 1) trivial (fun _ h => (by cases h)) rfl).2.2 (by simp)
      (by change ¬ 2 = 0; decide)
  exact ⟨ids, hnd, hids, hcell⟩

/-- A selection of nothing fails without a look at the leases: one that has run out stays. -/
theorem nothing_released : ∃ s s' e id, ServiceRun ObservationSnapshot.Distinct empty s ∧
    Program.run exec (previewAssetSelection (fun _ => 10) Sample.nothing) s = (.error e, s') ∧
    (¬ ∃ reason, e = .invalidRequest reason) ∧
    s.RunsOut (fun _ => 10) (Method.previewAssetSelection Sample.nothing).candidates id ∧
    s.InSelected id ∧ s'.InSelected id := by
  have hlease : Sample.underLease.RunsOut (fun _ => 10)
      (Method.previewAssetSelection Sample.nothing).candidates Sample.reservationId :=
    ⟨0, Sample.outpoint, ⟨Sample.reservationId, Sample.outpoint, 5⟩, rfl, rfl, rfl, by decide⟩
  exact ⟨_, _, .insufficientFunds, _, Sample.underLease_run, rfl, by simp, hlease,
    ⟨_, rfl, rfl⟩, ⟨_, rfl, rfl⟩⟩

end InMemoryStateStore

end Txoscope
