import Txoscope.Core.Calls
import Txoscope.Lib.Contracts

/-!
# What the methods never ask of a store

A batch is only applied for an operation whose intent the store has shown to its client before, and
always in phase `Selected`; an operation is only released into `RollingBack`. Every method of the
orchestrator keeps to this whatever the store answers, so it does over a store that fails, that
other processes write to, or that works in smaller steps than a call.
-/

namespace Txoscope

/-- The intents an answer shows. -/
def StoreCall.shows : (c : StoreCall) → DomainResult c.Out → Set OperationId
  | getIntent _, .ok (some intent) => {intent.selection.operationId}
  | listPendingIntents, .ok intents => {id | ∃ i ∈ intents, i.selection.operationId = id}
  | _, _ => ∅

/-- Whether a client that was shown the intents of `K` may issue the call. -/
def StoreCall.AllowedTo (K : Set OperationId) : StoreCall → Prop
  | applyBatch batch => batch.phase = .selected ∧ batch.selection.operationId ∈ K
  | releaseOperation _ phase => phase = .rollingBack
  | _ => True

theorem StoreCall.AllowedTo.mono {K K' : Set OperationId} (hK : K ⊆ K') (c : StoreCall)
    (h : c.AllowedTo K) : c.AllowedTo K' := by
  cases c with
  | applyBatch batch => exact ⟨h.1, hK h.2⟩
  | releaseOperation => exact h
  | _ => trivial

/-- What the clients of a store keep to. -/
def storeContract : Contract StoreCall StoreCall.Out DomainError OperationId where
  allows := StoreCall.AllowedTo
  tells := StoreCall.shows
  mono := StoreCall.AllowedTo.mono

/-- Every batch the client applies is for an operation of `K`, or one whose intent it was shown. -/
abbrev Disciplined {α : Type} (p : Client α) (K : Set OperationId) : Prop :=
  p.KeepsTo storeContract K

theorem StoreCall.Harmless.allowed {c : StoreCall} (h : c.Harmless) (K : Set OperationId) :
    storeContract.allows K c := by
  cases c with
  | applyBatch => exact h.elim
  | releaseOperation => exact h
  | _ => trivial

variable {α : Type} {K : Set OperationId}

theorem OnlyHarmless.disciplined {p : Client α} (h : OnlyHarmless p) : Disciplined p K :=
  .of_onlyCalls (fun _ hc K => StoreCall.Harmless.allowed hc K) h

theorem OnlySettles.disciplined {p : Client α} (h : OnlySettles p) : Disciplined p K :=
  OnlyHarmless.disciplined (OnlySettles.harmless h)

theorem OnlyReads.disciplined {p : Client α} (h : OnlyReads p) : Disciplined p K :=
  OnlyHarmless.disciplined (OnlyReads.harmless h)

/-- A client that drops what another returns. -/
theorem Disciplined.drop {p : Client α} (h : Disciplined p K) :
    Disciplined (do let _ ← p : Client Unit) K := .bind h fun _ => .pure _

/-! ## Committing and recovery -/

namespace Orchestrator

theorem commitSelection_disciplined (owner : String) {selection : OperationSelection}
    (h : selection.operationId ∈ K) : Disciplined (commitSelection owner selection) K := by
  unfold commitSelection
  refine .bind (.invoke trivial) fun operation => ?_
  refine .bind (OnlyReads.disciplined (requireSelected_onlyReads _ _)) fun _ => ?_
  refine .bind (OnlyReads.disciplined (validateSelection_onlyReads _)) fun _ => ?_
  exact .invoke ⟨rfl, h⟩

/-- The intent that is committed is the one that was read. -/
theorem commitRecordedIntent_disciplined (owner : String) (id : OperationId) :
    Disciplined (commitRecordedIntent owner id) K := by
  unfold commitRecordedIntent
  refine .bind_invoke trivial fun intent => ?_
  cases intent with
  | none => exact .throw _
  | some intent =>
    have hshown : intent.selection.operationId ∈
        K ∪ storeContract.tells (.getIntent id) (.ok (some intent)) := .inr rfl
    dsimp only
    cases intent.status with
    | committed => exact .pure _
    | failed => exact .throw _
    | pending =>
      refine .bind (.attempt (commitSelection_disciplined owner hshown)) fun result => ?_
      split
      · exact .invoke trivial
      · exact .throw _
      · refine .bind (OnlyReads.disciplined (isPendingLockConflict_onlyReads _ _)) fun conflict => ?_
        split_ifs
        · exact .throw _
        · exact .bind (.invoke trivial) fun _ => .throw _

theorem prepareOperation_disciplined (owner : String) (request : SelectionRequest) :
    Disciplined (prepareOperation owner request) K :=
  .bind (OnlyHarmless.disciplined (preparePendingOperation_onlyHarmless request)) fun _ =>
    .bind (commitRecordedIntent_disciplined owner _) fun _ => .pure _

theorem applySelection_disciplined (owner : String) (selection : OperationSelection) :
    Disciplined (applySelection owner selection) K :=
  .bind (.invoke trivial) fun _ => commitRecordedIntent_disciplined owner _

theorem recoverPass_disciplined (owner : String) {pending : List OperationIntent}
    (h : ∀ i ∈ pending, i.selection.operationId ∈ K) (report : RecoveryReport) :
    Disciplined (recoverPass owner pending report) K := by
  induction pending generalizing report with
  | nil => exact .pure _
  | cons intent pending ih =>
    have ih := fun report => ih (fun i hi => h i (List.mem_cons_of_mem _ hi)) report
    have hcommit := commitSelection_disciplined owner (h intent List.mem_cons_self)
    unfold recoverPass
    refine .bind (.attempt hcommit) fun result => ?_
    split
    · exact .bind (.invoke trivial) fun _ => .bind (ih _) fun _ => .pure _
    · exact .throw _
    · refine .bind (OnlyReads.disciplined (isPendingLockConflict_onlyReads _ _)) fun conflict => ?_
      split_ifs
      · exact .bind (ih _) fun _ => .pure _
      · exact .bind (.invoke trivial) fun _ => .bind (ih _) fun _ => .pure _

theorem recoverLoop_disciplined (owner : String) (rounds : ℕ) {pending : List OperationIntent}
    (hlen : pending.length ≤ rounds) (h : ∀ i ∈ pending, i.selection.operationId ∈ K)
    (report : RecoveryReport) : Disciplined (recoverLoop owner rounds pending hlen report) K := by
  induction rounds generalizing pending report with
  | zero =>
    obtain rfl := List.length_eq_zero_iff.mp (Nat.le_zero.mp hlen)
    exact .pure _
  | succ rounds ih =>
    cases pending with
    | nil => exact .pure _
    | cons intent pending =>
      unfold recoverLoop
      refine .bind (recoverPass_disciplined owner h report) fun pass => ?_
      split_ifs
      · exact ih _ (fun i hi => h i (pass.sublist.subset hi)) _
      · exact .pure _

/-- The intents that are recovered are those that were listed. -/
theorem recoverPendingIntents_disciplined (owner : String) :
    Disciplined (recoverPendingIntents owner) K := by
  unfold recoverPendingIntents
  refine .bind_invoke trivial fun pending => ?_
  exact recoverLoop_disciplined owner _ _ (fun i hi => .inr ⟨i, hi, rfl⟩) _

/-- Every method of the orchestrator is disciplined. -/
theorem Method.disciplined (owner : String) (m : Method) : Disciplined (m.program owner) ∅ := by
  cases m with
  | addAccount | addScope | addUtxo | advanceTick => exact .invoke trivial
  | reconcileSnapshot snapshot =>
    refine Disciplined.drop (.bind (OnlyReads.disciplined (plan_onlyReads snapshot)) fun plan => ?_)
    exact .bind (.invoke trivial) fun _ => .pure _
  | proposeOperation request =>
    exact Disciplined.drop (OnlyReads.disciplined (proposeOperation_onlyReads request))
  | preparePendingOperation request =>
    exact Disciplined.drop
      (OnlyHarmless.disciplined (preparePendingOperation_onlyHarmless request))
  | prepareOperation request => exact Disciplined.drop (prepareOperation_disciplined owner request)
  | applySelection selection => exact applySelection_disciplined owner selection
  | persistSelectionIntent | releaseSelectedOperation => exact Disciplined.drop (.invoke trivial)
  | commitRecordedIntent id => exact commitRecordedIntent_disciplined owner id
  | failRecordedIntent id => exact OnlyHarmless.disciplined (failRecordedIntent_onlyHarmless id)
  | recoverPendingIntents => exact Disciplined.drop (recoverPendingIntents_disciplined owner)
  | cleanupStaleReservations maxAge =>
    exact Disciplined.drop (OnlySettles.disciplined (cleanupStaleReservations_onlySettles maxAge))
  | releaseOperation id =>
    exact Disciplined.drop (OnlySettles.disciplined (releaseOperation_onlySettles id))
  | verifyPlannedInputs id outpoints =>
    exact OnlyReads.disciplined (verifyPlannedInputs_onlyReads id outpoints)
  | completeOperation id phase outpoints =>
    exact Disciplined.drop
      (OnlySettles.disciplined (completeOperation_onlySettles id phase outpoints))

end Orchestrator

end Txoscope
