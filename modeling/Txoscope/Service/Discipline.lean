import Txoscope.Core.Discipline
import Txoscope.Service.Runs

/-!
# What the service never asks of a store

The methods and queries of the service are disciplined as those of the orchestrator are.
-/

namespace Txoscope

namespace TxoscopeService

open Orchestrator

/-- Every method of the service is disciplined. -/
theorem Method.disciplined (owner : String) (generate : ℕ → OperationId) (now : ℕ → ℕ)
    (m : Method) : Disciplined (m.program owner generate now) ∅ := by
  have hprepare := prepareOperation_disciplined (K := ∅) owner
  have happly := applySelection_disciplined (K := ∅) owner
  cases m with
  | bootstrap cfg => exact OnlySettles.disciplined (bootstrap_onlySettles cfg)
  | reconcileSnapshot snapshot =>
    refine Disciplined.drop (.bind (.invoke trivial) fun _ => ?_)
    refine .bind (.bind (OnlyReads.disciplined (plan_onlyReads snapshot)) fun plan => ?_) fun _ => ?_
    · exact .bind (.invoke trivial) fun _ => .pure _
    · exact .bind (.invoke trivial) fun _ => .pure _
  | planExactOutpoints req =>
    exact Disciplined.drop (.bind (hprepare _) fun _ => .pure _)
  | applyExplicitSelection req =>
    refine Disciplined.drop (.bind (OnlyReads.disciplined (.ofExcept _)) fun _ => ?_)
    refine .bind (.invoke trivial) fun scope => ?_
    cases scope with
    | none => exact .throw _
    | some scope => exact .bind (happly _) fun _ => .pure _
  | reserveSpecificUtxo req =>
    exact Disciplined.drop (.bind (hprepare _) fun _ => .pure _)
  | reserveManualUtxo req =>
    exact Disciplined.drop (.bind (hprepare _) fun _ => OnlyReads.disciplined (.ofExcept _))
  | reserveFirstAvailableManualUtxo req =>
    refine Disciplined.drop (.bind (OnlySettles.disciplined
      (expireStaleCandidateReservations_onlySettles _ _)) fun _ => ?_)
    refine .bind (.attempt (hprepare _)) fun result => ?_
    split
    · exact .bind (OnlyReads.disciplined (.ofExcept _)) fun _ => .pure _
    · exact .pure _
    · exact .throw _
  | getActiveManualReservation outpoint =>
    exact Disciplined.drop
      (OnlySettles.disciplined (getActiveManualReservation_onlySettles _ outpoint))
  | previewAssetSelection req =>
    exact Disciplined.drop (OnlySettles.disciplined (previewAssetSelection_onlySettles _ req))
  | planAssetSelection req =>
    refine Disciplined.drop (.bind (OnlySettles.disciplined
      (previewAssetSelection_onlySettles _ _)) fun selected => ?_)
    cases selected.head? with
    | none => exact .throw _
    | some first =>
      refine .bind (.invoke trivial) fun utxo => ?_
      cases utxo with
      | none => exact .throw _
      | some utxo => exact .bind (happly _) fun _ => .pure _
  | releaseOperation id =>
    exact Disciplined.drop (OnlySettles.disciplined (releaseOperation_onlySettles id))
  | completeOperation id phase outpoints =>
    exact Disciplined.drop
      (OnlySettles.disciplined (completeOperation_onlySettles id phase outpoints))
  | cleanupStaleReservations maxAge =>
    exact Disciplined.drop (OnlySettles.disciplined (cleanupStaleReservations_onlySettles maxAge))

/-- Every query only reads. -/
theorem Query.onlyReads (q : Query) : OnlyReads q.program := by
  cases q with
  | verifyPlannedInputs id outpoints => exact verifyPlannedInputs_onlyReads id outpoints
  | getManualReservation outpoint =>
    exact .bind (getManualReservation_onlyReads outpoint) fun _ => .pure _
  | isOutpointSelectable outpoint =>
    exact .bind (.bind (utxoStatus_onlyReads outpoint) fun _ => .pure _) fun _ => .pure _
  | utxoStatus outpoint => exact .bind (utxoStatus_onlyReads outpoint) fun _ => .pure _
  | getPlannedSelection | utxoAccountId | managedUtxo | owningOperationIdForOutpoint
  | selectedOperationIdForOutpoint | isOutpointSpent | operationHasExpiry =>
    exact .bind (.bind (.invoke trivial) fun _ => .pure _) fun _ => .pure _

end TxoscopeService

/-! ## Clients of a store -/

/-- Whoever may use a store: the orchestrator and the service with any owner label, identities and
clock, and somebody who applies a reconciliation plan of his own. -/
inductive IsStoreClient : Client Unit → Prop where
  | orchestrator (owner : String) (m : Orchestrator.Method) : IsStoreClient (m.program owner)
  | service (owner : String) (generate : ℕ → OperationId) (now : ℕ → ℕ)
      (m : TxoscopeService.Method) : IsStoreClient (m.program owner generate now)
  | query (q : TxoscopeService.Query) : IsStoreClient q.program
  | plan (plan : ReconcilePlan) : IsStoreClient (StoreCall.applyReconciliation plan).invoke

theorem IsStoreClient.disciplined {p : Client Unit} (h : IsStoreClient p) : Disciplined p ∅ := by
  cases h with
  | orchestrator owner m => exact m.disciplined owner
  | service owner generate now m => exact m.disciplined owner generate now
  | query q => exact OnlyReads.disciplined q.onlyReads
  | plan plan => exact .invoke trivial

end Txoscope
