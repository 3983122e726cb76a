import Txoscope.Memory.Proposals
import Txoscope.Service.Runs

/-!
# Planning calls

The calls that plan inputs check and choose them, and then record the selection and commit it
(`program_eq`). A choice changes nothing but the leases that have run out, and never that of an
operation whose recorded selection it repeats (`chosen_of_choose`).
-/

namespace Txoscope

namespace TxoscopeService

/-! ## Planning calls -/

/-- A call that plans the inputs of an operation. -/
inductive PlanCall where
  | planExact (req : PlanExactOutpointsRequest)
  | reserveSpecific (req : ReserveSpecificUtxoRequest)
  | applyExplicit (req : ApplyExplicitSelectionRequest)
  | planAsset (now : ℕ → ℕ) (req : PlanAssetSelectionRequest)

namespace PlanCall

def program (owner : String) : PlanCall → Client PlannedSelection
  | planExact req => planExactOutpoints owner req
  | reserveSpecific req => reserveSpecificUtxo owner req
  | applyExplicit req => applyExplicitSelection owner req
  | planAsset now req => planAssetSelection owner now req

/-- The operation the inputs are planned for. -/
def operationId : PlanCall → OperationId
  | planExact req => req.operationId
  | reserveSpecific req => req.operationId
  | applyExplicit req => req.operationId
  | planAsset _ req => req.operationId

/-- The checks of a call and its choice of inputs, before anything is recorded. -/
def choose : PlanCall → Client OperationSelection
  | planExact req => Orchestrator.proposeOperation req.request
  | reserveSpecific req => Orchestrator.proposeOperation req.request
  | applyExplicit req => do
    Program.ofExcept (checkExplicit req.selectedOutpoints)
    match ← (StoreCall.getScope req.changeScopeId).invoke with
    | none => throw (.scopeNotFound req.changeScopeId)
    | some _ => return ApplyExplicitSelectionRequest.selection req
  | planAsset now req => do
    let selectedOutpoints ← previewAssetSelection now req.selection
    match selectedOutpoints.head? with
    | none => throw .insufficientFunds
    | some first =>
      match ← (StoreCall.getUtxo first).invoke with
      | none => throw (.utxoNotFound first)
      | some utxo => return assetSelection req selectedOutpoints utxo.scopeId

/-- Every planning call chooses a selection and applies it. -/
theorem program_eq (owner : String) (call : PlanCall) :
    call.program owner = do
      let selection ← call.choose
      Orchestrator.applySelection owner selection
      return selection.planned := by
  cases call with
  | planExact | reserveSpecific =>
    unfold program choose
    simp only [planExactOutpoints, reserveSpecificUtxo, Orchestrator.prepareOperation,
      Orchestrator.preparePendingOperation, Orchestrator.applySelection, bind_assoc, pure_bind]
  | applyExplicit req =>
    unfold program choose applyExplicitSelection
    simp only [bind_assoc]
    refine bind_congr fun _ => bind_congr fun scope => ?_
    cases scope with
    | none => rfl
    | some scope => rfl
  | planAsset now req =>
    unfold program choose planAssetSelection
    simp only [bind_assoc]
    refine bind_congr fun selected => ?_
    cases selected.head? with
    | none => rfl
    | some first =>
      simp only [bind_assoc]
      refine bind_congr fun utxo => ?_
      cases utxo with
      | none => rfl
      | some utxo => rfl

end PlanCall

end TxoscopeService

namespace InMemoryStateStore

open TxoscopeService

variable {s s' s'' : InMemoryStateStore}

/-! ## What a choice leaves -/

/-- Some leases expired between `s` and `s'`: operations with a lock for a manual reservation may
have been released, and nothing else happened. -/
structure Expired (s s' : InMemoryStateStore) : Prop where
  intent : s'.getIntent = s.getIntent
  lock : ∀ o k, s'.getLock o = some k → s.getLock o = some k
  held : ∀ o id, (s'.cell o).Held id → (s.cell o).Held id
  kept : ∀ o id, (s.cell o).Held id →
    (∀ o' k, s.getLock o' = some k → k.operationId = id → k.purpose ≠ .manualReservation) →
      (s'.cell o).Held id

theorem Expired.refl (s : InMemoryStateStore) : s.Expired s :=
  ⟨rfl, fun _ _ h => h, fun _ _ h => h, fun _ _ h _ => h⟩

theorem Expired.trans (h : s.Expired s') (h' : s'.Expired s'') : s.Expired s'' where
  intent := h'.intent.trans h.intent
  lock o k hk := h.lock o k (h'.lock o k hk)
  held o id ho := h.held o id (h'.held o id ho)
  kept o id ho hnot := h'.kept o id (h.kept o id ho hnot) fun o' k hk => hnot o' k (h.lock o' k hk)

theorem expired_release {o : OutPoint} {k : OperationLock} (hk : s.getLock o = some k)
    (hpurpose : k.purpose = .manualReservation) :
    s.Expired (s.releaseSelectedOperation k.operationId).2 := by
  unfold releaseSelectedOperation
  split_ifs
  · exact .refl s
  · have hcell := cell_releaseOperation s k.operationId .rollingBack
    refine ⟨rfl, fun o' k' hk' => ?_, fun o' id ho' => ?_, fun o' id ho' hnot => ?_⟩
    · have hlock : ((s.cell o').release k.operationId).lock = some k' := by
        rw [← hcell o']
        exact hk'
      exact (Option.filter_eq_some_iff.mp hlock).1
    · exact Cell.Held.of_release (hcell o' ▸ ho')
    · refine (hcell o').symm ▸ ho'.release ?_
      rintro rfl
      exact hnot o k hk rfl hpurpose

theorem expired_getActiveManualReservation (now : ℕ) (o : OutPoint) :
    s.Expired (Program.run exec (getActiveManualReservation now o) s).2 := by
  have hfind := Program.OnlyCalls.run_eq reads_snd (getManualReservation_onlyReads o) s
  unfold getActiveManualReservation
  cases hr : Program.eval exec (getManualReservation o) s with
  | error e =>
    rw [hr] at hfind
    rw [Program.run_bind_error _ hfind]
    exact .refl s
  | ok found =>
    rw [hr] at hfind
    rw [Program.run_bind_ok _ hfind]
    cases found with
    | none => exact .refl s
    | some reservation =>
      dsimp only
      split_ifs
      · obtain ⟨⟨k, hk, hid, hpurpose⟩, -⟩ := getManualReservation_found hr
        rw [← hid]
        exact expired_release hk hpurpose
      · exact .refl s

theorem expired_expireStaleCandidateReservations (now : ℕ → ℕ) (outpoints : List OutPoint) :
    s.Expired (Program.run exec (expireStaleCandidateReservations now outpoints) s).2 := by
  induction outpoints generalizing now s with
  | nil => exact .refl s
  | cons o outpoints ih =>
    have hfirst := expired_getActiveManualReservation (s := s) (now 0) o
    unfold expireStaleCandidateReservations
    rw [Program.run_bind]
    split
    · rename_i found s₁ heq
      rw [heq] at hfirst
      exact hfirst.trans (ih _)
    · rename_i e s₁ heq
      rw [heq] at hfirst
      exact hfirst

theorem expired_previewAssetSelection (now : ℕ → ℕ) (req : AssetSelectionRequest) :
    s.Expired (Program.run exec (previewAssetSelection now req) s).2 := by
  have hexpire := expired_expireStaleCandidateReservations (s := s) now
    (sortByText (req.candidates.map (·.outpoint)))
  unfold previewAssetSelection
  cases checkAssetRequest req with
  | error e => exact .refl s
  | ok u =>
    change s.Expired (Program.run exec (expireStaleCandidateReservations now _ >>= _) s).2
    rw [Program.run_bind]
    split
    · rename_i found s₁ heq
      rw [heq] at hexpire
      rw [Program.OnlyCalls.run_snd reads_snd (selectAssets_onlyReads req)]
      exact hexpire
    · rename_i e s₁ heq
      rw [heq] at hexpire
      exact hexpire

/-- A choice is made for the operation of the call; it may let leases expire, but not that of an
operation whose intent is the selection chosen. -/
structure Chosen (s : InMemoryStateStore) (call : PlanCall) (selection : OperationSelection)
    (s' : InMemoryStateStore) : Prop where
  expired : s.Expired s'
  operationId : selection.operationId = call.operationId
  kept : ∀ i, s.getIntent call.operationId = some i → i.selection = selection → ∀ o,
    (s.cell o).Held call.operationId → (s'.cell o).Held call.operationId

theorem Chosen.of_reads {call : PlanCall} {selection : OperationSelection}
    (h : selection.operationId = call.operationId) : s.Chosen call selection s :=
  ⟨.refl s, h, fun _ _ _ _ h => h⟩

/-- The effects of an asset plan are no manual reservations. -/
theorem assetSelection_purpose {req : PlanAssetSelectionRequest} {outpoints : List OutPoint}
    {scopeId : WalletScopeId} {e : SelectionEffect}
    (h : e ∈ (assetSelection req outpoints scopeId).effects) : e.purpose ≠ .manualReservation := by
  obtain ⟨o, -, rfl⟩ := List.mem_map.mp h
  dsimp only
  split_ifs <;> decide

theorem chosen_of_choose (hk : s.WellKeyed) (hjustified : s.toLedger.Justified) {call : PlanCall}
    {selection : OperationSelection}
    (h : Program.run exec call.choose s = (.ok selection, s')) : s.Chosen call selection s' := by
  have hpropose : ∀ {request : SelectionRequest}, request.operationId = call.operationId →
      Program.run exec (Orchestrator.proposeOperation request) s = (.ok selection, s') →
        s.Chosen call selection s' := by
    intro request hid hrun
    have hreads := Program.OnlyCalls.run_eq reads_snd
      (Orchestrator.proposeOperation_onlyReads request) s
    rw [hrun] at hreads
    obtain rfl := congrArg Prod.snd hreads
    exact .of_reads ((proposeOperation_proposed hk (congrArg Prod.fst hreads).symm).operationId_eq.trans
      hid)
  cases call with
  | planExact req => exact hpropose rfl h
  | reserveSpecific req => exact hpropose rfl h
  | applyExplicit req =>
    unfold PlanCall.choose at h
    dsimp only at h
    cases hc : checkExplicit req.selectedOutpoints with
    | error e =>
      rw [hc] at h
      cases h
    | ok u =>
      have hread : Program.run exec (StoreCall.getScope req.changeScopeId).invoke s =
          (.ok (s.getScope req.changeScopeId), s) := rfl
      rw [Program.run_bind_ok _ (congrArg (·, s) hc : Program.run exec (Program.ofExcept _) s = _),
        Program.run_bind_ok _ hread] at h
      cases hs : s.getScope req.changeScopeId with
      | none =>
        rw [hs] at h
        cases h
      | some scope =>
        rw [hs] at h
        cases h
        exact .of_reads rfl
  | planAsset now req =>
    have hexpired := expired_previewAssetSelection (s := s) now req.selection
    unfold PlanCall.choose at h
    dsimp only at h
    obtain ⟨⟨result, s₁⟩, hpreview⟩ : ∃ x, Program.run exec
        (previewAssetSelection now req.selection) s = x := ⟨_, rfl⟩
    rw [hpreview] at hexpired
    cases result with
    | error e =>
      rw [Program.run_bind_error _ hpreview] at h
      cases h
    | ok outpoints =>
      rw [Program.run_bind_ok _ hpreview] at h
      cases hhead : outpoints.head? with
      | none =>
        rw [hhead] at h
        cases h
      | some first =>
        rw [hhead] at h
        dsimp only at h
        have hread : Program.run exec (StoreCall.getUtxo first).invoke s₁ =
            (.ok (s₁.getUtxo first), s₁) := rfl
        rw [Program.run_bind_ok _ hread] at h
        cases hu : s₁.getUtxo first with
        | none =>
          rw [hu] at h
          cases h
        | some u =>
          rw [hu] at h
          cases h
          refine ⟨hexpired, rfl, fun i hi hsel o ho => ?_⟩
          refine hexpired.kept o _ ho fun o' k hk' hid hpurpose => ?_
          -- a manual reservation would be an effect of the intent
          obtain ⟨j, hj, hmem⟩ := hjustified o' k hk'
          rw [hid, show s.toLedger.intent _ = some i from hi] at hj
          cases hj
          rw [hsel] at hmem
          exact assetSelection_purpose hmem hpurpose

end InMemoryStateStore

end Txoscope
