import Txoscope.Core.Orchestrator

/-!
# Which calls a method issues

Proposing only reads. Apart from `add_utxo`, from the plans of `reconcile_snapshot` and from the
batches of `commit_selection`, a method issues calls that are admissible in every state
(`StoreCall.Harmless`).
-/

namespace Txoscope

/-- A call that no state forbids: anything but putting in an output, applying a batch or a plan and
releasing into a phase other than `RollingBack`. -/
def StoreCall.Harmless : StoreCall → Prop
  | putUtxo _ | applyBatch _ | applyReconciliation _ => False
  | releaseOperation _ phase => phase = .rollingBack
  | _ => True

theorem StoreCall.IsRead.harmless {c : StoreCall} (h : c.IsRead) : c.Harmless := by
  cases c <;> trivial

/-- A harmless call that records no selection. -/
def StoreCall.Settles : StoreCall → Prop
  | persistIntent _ => False
  | c => c.Harmless

theorem StoreCall.IsRead.settles {c : StoreCall} (h : c.IsRead) : c.Settles := by
  cases c <;> trivial

theorem StoreCall.Settles.harmless {c : StoreCall} (h : c.Settles) : c.Harmless := by
  cases c <;> first | exact h | exact h.elim

/-- Clients restricted to reads. -/
abbrev OnlyReads {α : Type} (p : Client α) : Prop := p.OnlyCalls StoreCall.IsRead

/-- Clients restricted to harmless calls. -/
abbrev OnlyHarmless {α : Type} (p : Client α) : Prop := p.OnlyCalls StoreCall.Harmless

/-- Clients restricted to harmless calls that record no selection. -/
abbrev OnlySettles {α : Type} (p : Client α) : Prop := p.OnlyCalls StoreCall.Settles

theorem OnlyReads.harmless {α : Type} {p : Client α} (h : OnlyReads p) : OnlyHarmless p :=
  h.mono fun _ => StoreCall.IsRead.harmless

theorem OnlyReads.settles {α : Type} {p : Client α} (h : OnlyReads p) : OnlySettles p :=
  h.mono fun _ => StoreCall.IsRead.settles

theorem OnlySettles.harmless {α : Type} {p : Client α} (h : OnlySettles p) : OnlyHarmless p :=
  h.mono fun _ => StoreCall.Settles.harmless

/-! ## Validation -/

namespace OperationSelection

theorem validateScope_onlyReads (accountId : AccountId) (scopeId : WalletScopeId)
    (required : CapabilitySet) :
    OnlyReads (validateScope (m := Client) (fun id => (StoreCall.getAccount id).invoke)
      (fun id => (StoreCall.getScope id).invoke) accountId scopeId required) := by
  unfold validateScope
  refine .bind (.invoke trivial) fun account => ?_
  cases account with
  | none => exact .throw _
  | some account =>
    dsimp only
    split_ifs
    · exact .throw _
    · refine .bind (.invoke trivial) fun scope => ?_
      cases scope with
      | none => exact .throw _
      | some scope =>
        dsimp only
        split_ifs
        · exact .throw _
        · exact .throw _
        · exact .pure _

theorem validateEffects_onlyReads (effects : List SelectionEffect)
    (changeRequired : CapabilitySet) :
    OnlyReads (validateEffects (m := Client) (fun id => (StoreCall.getAccount id).invoke)
      (fun id => (StoreCall.getScope id).invoke) (fun o => (StoreCall.getUtxo o).invoke) effects
        changeRequired) := by
  induction effects generalizing changeRequired with
  | nil => exact .pure _
  | cons effect effects ih =>
    unfold validateEffects
    refine .bind (.invoke trivial) fun utxo => ?_
    cases utxo with
    | none => exact .throw _
    | some utxo => exact .bind (validateScope_onlyReads _ _ _) fun _ => ih _

theorem validateCapabilities_onlyReads (selection : OperationSelection) :
    OnlyReads (selection.validateCapabilities (m := Client)
      (fun id => (StoreCall.getAccount id).invoke) (fun id => (StoreCall.getScope id).invoke)
      (fun o => (StoreCall.getUtxo o).invoke)) := by
  unfold validateCapabilities
  cases selection.validateStructure with
  | error e => exact .throw _
  | ok u =>
    refine .bind (validateEffects_onlyReads _ _) fun change => ?_
    refine .bind (.invoke trivial) fun scope => ?_
    cases scope with
    | none => exact .throw _
    | some scope => exact validateScope_onlyReads _ _ _

end OperationSelection

/-! ## Selection -/

namespace SelectionContext

theorem isPolicySpendable_onlyReads (utxo : ManagedUtxo) :
    OnlyReads (isPolicySpendable utxo) := by
  unfold isPolicySpendable
  split_ifs
  · exact .bind (.invoke trivial) fun _ => .pure _
  · exact .pure _

theorem selectableAmong_onlyReads (ctx : SelectionContext) (utxos : List ManagedUtxo) :
    OnlyReads (ctx.selectableAmong utxos) := by
  induction utxos with
  | nil => exact .pure _
  | cons utxo utxos ih =>
    unfold selectableAmong
    split_ifs
    · exact ih
    · refine .bind (isPolicySpendable_onlyReads utxo) fun spendable => ?_
      cases spendable with
      | false => exact ih
      | true => exact .bind ih fun _ => .pure _
    · exact ih

theorem selectableUtxos_onlyReads (ctx : SelectionContext) : OnlyReads ctx.selectableUtxos :=
  .bind (.invoke trivial) fun _ => ctx.selectableAmong_onlyReads _

theorem readScopes_onlyReads (scopeIds : List WalletScopeId) :
    OnlyReads (readScopes scopeIds) := by
  induction scopeIds with
  | nil => exact .pure _
  | cons scopeId scopeIds ih => exact .bind (.invoke trivial) fun _ => .bind ih fun _ => .pure _

theorem preferredScope_onlyReads (ctx : SelectionContext) : OnlyReads ctx.preferredScope := by
  unfold preferredScope
  refine .bind (readScopes_onlyReads _) fun scopes => ?_
  cases preferScope scopes with
  | none => exact .throw _
  | some scope => exact .pure _

theorem isSelectableCandidate_onlyReads (ctx : SelectionContext) (outpoint : OutPoint) :
    OnlyReads (ctx.isSelectableCandidate outpoint) := by
  unfold isSelectableCandidate
  refine .bind (.invoke trivial) fun utxo => ?_
  cases utxo with
  | none => exact .pure _
  | some utxo =>
    dsimp only
    split_ifs
    · exact isPolicySpendable_onlyReads utxo
    · exact .pure _

theorem requireSelectableCandidate_onlyReads (ctx : SelectionContext) (outpoint : OutPoint) :
    OnlyReads (ctx.requireSelectableCandidate outpoint) := by
  unfold requireSelectableCandidate
  refine .bind (.invoke trivial) fun utxo => ?_
  cases utxo with
  | none => exact .throw _
  | some utxo =>
    dsimp only
    split_ifs
    · exact .throw _
    · exact .throw _
    · refine .bind (isPolicySpendable_onlyReads utxo) fun spendable => ?_
      cases spendable with
      | false => exact .bind (.invoke trivial) fun _ => .throw _
      | true => exact .pure _
    · refine .bind (.invoke trivial) fun scope => ?_
      split_ifs <;> exact .throw _
    · exact .throw _

end SelectionContext

namespace SelectionSortPolicy

theorem readKeyed_onlyReads (outpoints : List OutPoint) : OnlyReads (readKeyed outpoints) := by
  induction outpoints with
  | nil => exact .pure _
  | cons outpoint outpoints ih =>
    unfold readKeyed
    refine .bind (.invoke trivial) fun utxo => ?_
    cases utxo with
    | none => exact .throw _
    | some utxo => exact .bind ih fun _ => .pure _

theorem sortCandidateIds_onlyReads (candidates : List OutPoint) :
    OnlyReads (sortCandidateIds candidates) :=
  .bind (readKeyed_onlyReads candidates) fun _ => .pure _

theorem accumulateByValue_onlyReads (target : ℕ) (outpoints : List OutPoint) (acc : ℕ) :
    OnlyReads (accumulateByValue target outpoints acc) := by
  induction outpoints generalizing acc with
  | nil => exact .pure _
  | cons outpoint outpoints ih =>
    unfold accumulateByValue
    refine .bind (.invoke trivial) fun utxo => ?_
    cases utxo with
    | none => exact .throw _
    | some utxo =>
      dsimp only
      split_ifs
      · exact .pure _
      · exact .bind (ih _) fun _ => .pure _

end SelectionSortPolicy

theorem targetValueSelect_onlyReads (ctx : SelectionContext) (amountSats : ℕ) :
    OnlyReads (targetValueSelect ctx amountSats) := by
  unfold targetValueSelect
  refine .bind ctx.preferredScope_onlyReads fun scope => ?_
  refine .bind ctx.selectableUtxos_onlyReads fun candidates => ?_
  refine .bind (.bind (SelectionSortPolicy.readKeyed_onlyReads candidates) fun _ => .pure _)
    fun sorted => ?_
  refine .bind (SelectionSortPolicy.accumulateByValue_onlyReads _ _ _) fun selected => ?_
  cases selected with
  | none => exact .throw _
  | some selected => exact .pure _

theorem firstSelectable_onlyReads (ctx : SelectionContext) (candidates : List OutPoint) :
    OnlyReads (firstSelectable ctx candidates) := by
  induction candidates with
  | nil => exact .pure _
  | cons outpoint outpoints ih =>
    unfold firstSelectable
    refine .bind (ctx.isSelectableCandidate_onlyReads outpoint) fun selectable => ?_
    cases selectable with
    | false => exact ih
    | true => exact .pure _

theorem withChangeScope_onlyReads (outpoints : List OutPoint) :
    OnlyReads (withChangeScope outpoints) := by
  unfold withChangeScope
  cases outpoints with
  | nil => exact .throw _
  | cons first rest =>
    refine .bind (.invoke trivial) fun utxo => ?_
    cases utxo with
    | none => exact .throw _
    | some utxo => exact .pure _

theorem selectInputs_onlyReads (ctx : SelectionContext) (spec : InputSelectionSpec) :
    OnlyReads (selectInputs ctx spec) := by
  cases spec with
  | targetValue amountSats => exact targetValueSelect_onlyReads ctx amountSats
  | exactOutpoints outpoints =>
    exact .bind (.forEach ctx.requireSelectableCandidate_onlyReads outpoints) fun _ =>
      withChangeScope_onlyReads outpoints
  | firstSelectable candidates =>
    refine .bind (firstSelectable_onlyReads ctx candidates) fun selected => ?_
    cases selected with
    | none => exact .throw _
    | some selected => exact withChangeScope_onlyReads _

namespace Orchestrator

/-! ## Methods -/

theorem eligibleScopes_onlyReads (accountId : AccountId) (required : CapabilitySet)
    (scopeIds : List WalletScopeId) :
    OnlyReads (eligibleScopes accountId required scopeIds) := by
  induction scopeIds with
  | nil => exact .pure _
  | cons scopeId scopeIds ih =>
    unfold eligibleScopes
    refine .bind (.invoke trivial) fun scope => .bind ih fun eligible => ?_
    split_ifs <;> exact .pure _

theorem proposeOperation_onlyReads (request : SelectionRequest) :
    OnlyReads (proposeOperation request) := by
  unfold proposeOperation
  refine .bind (.ofExcept _) fun _ => .bind (.invoke trivial) fun account => ?_
  cases account with
  | none => exact .throw _
  | some account =>
    dsimp only
    split_ifs
    · exact .throw _
    · refine .bind (eligibleScopes_onlyReads _ _ _) fun eligible => ?_
      split_ifs
      · exact .throw _
      · exact .bind (selectInputs_onlyReads _ _) fun _ => .pure _

theorem validateEffect_onlyReads (operationId : OperationId) (effect : SelectionEffect) :
    OnlyReads (validateEffect operationId effect) := by
  unfold validateEffect
  refine .bind (.invoke trivial) fun utxo => ?_
  cases utxo with
  | none => exact .throw _
  | some utxo =>
    refine .bind (.invoke trivial) fun lock => ?_
    split_ifs
    · exact .pure _
    · exact .pure _
    · exact .throw _

theorem validateSelection_onlyReads (selection : OperationSelection) :
    OnlyReads (validateSelection selection) :=
  .bind selection.validateCapabilities_onlyReads fun _ =>
    .forEach (validateEffect_onlyReads selection.operationId) selection.effects

theorem requireSelected_onlyReads (operationId : OperationId)
    (operation : Option PersistedOperation) :
    OnlyReads (requireSelected operationId operation) := by
  unfold requireSelected
  cases operation with
  | none => exact .pure _
  | some operation =>
    dsimp only
    split_ifs
    · exact .throw _
    · exact .pure _

theorem isPendingLockConflict_onlyReads (operationId : OperationId) (error : DomainError) :
    OnlyReads (isPendingLockConflict operationId error) := by
  unfold isPendingLockConflict
  cases contendedOutpoint error with
  | none => exact .pure _
  | some outpoint =>
    refine .bind (.invoke trivial) fun lock => ?_
    cases lock with
    | none => exact .pure _
    | some lock =>
      dsimp only
      split_ifs
      · exact .pure _
      · exact .bind (.invoke trivial) fun _ => .pure _

theorem verifyPlannedInputs_onlyReads (operationId : OperationId)
    (actualOutpoints : List OutPoint) :
    OnlyReads (verifyPlannedInputs operationId actualOutpoints) := by
  unfold verifyPlannedInputs
  refine .bind (.invoke trivial) fun intent => ?_
  cases intent with
  | none => exact .throw _
  | some planned =>
    dsimp only
    split_ifs
    · exact .pure _
    · exact .throw _

theorem currentOperation_onlyReads (operationId : OperationId) :
    OnlyReads (currentOperation operationId) := by
  unfold currentOperation
  refine .bind (.invoke trivial) fun operation => ?_
  cases operation with
  | none => exact .throw _
  | some operation => exact .pure _

theorem plan_onlyReads (snapshot : ObservationSnapshot) :
    OnlyReads (ReconciliationPlanner.plan snapshot) :=
  .bind (.invoke trivial) fun _ => .pure _

theorem preparePendingOperation_onlyHarmless (request : SelectionRequest) :
    OnlyHarmless (preparePendingOperation request) :=
  .bind (OnlyReads.harmless (proposeOperation_onlyReads request)) fun _ =>
    .bind (.invoke trivial) fun _ => .pure _

theorem failRecordedIntent_onlyHarmless (operationId : OperationId) :
    OnlyHarmless (failRecordedIntent operationId) := by
  unfold failRecordedIntent
  refine .bind (.invoke trivial) fun intent => ?_
  cases intent with
  | none => exact .throw _
  | some intent =>
    dsimp only
    cases intent.status with
    | pending => exact .invoke trivial
    | committed => exact .throw _
    | failed => exact .pure _

theorem releaseOperation_onlySettles (operationId : OperationId) :
    OnlySettles (releaseOperation operationId) := by
  unfold releaseOperation
  refine .bind (OnlyReads.settles (currentOperation_onlyReads operationId)) fun operation => ?_
  split_ifs
  · exact .pure _
  · exact .invoke rfl

theorem releaseStale_onlySettles (operationIds : List OperationId) (report : CleanupReport) :
    OnlySettles (releaseStale operationIds report) := by
  induction operationIds generalizing report with
  | nil => exact .pure _
  | cons id ids ih =>
    unfold releaseStale
    refine .bind (.invoke trivial) fun released => ?_
    cases released with
    | none => exact ih _
    | some released => exact ih _

theorem cleanupStaleReservations_onlySettles (maxAge : ℕ) :
    OnlySettles (cleanupStaleReservations maxAge) :=
  .bind (.invoke trivial) fun _ => .bind (.invoke trivial) fun _ => releaseStale_onlySettles _ _

theorem completeOperation_onlySettles (operationId : OperationId)
    (completedPhase : OperationPhase) (actualOutpoints : List OutPoint) :
    OnlySettles (completeOperation operationId completedPhase actualOutpoints) := by
  unfold completeOperation
  refine .bind (OnlyReads.settles (currentOperation_onlyReads operationId)) fun operation => ?_
  refine .bind (.invoke trivial) fun intent => ?_
  cases intent with
  | none => exact .throw _
  | some intent =>
    dsimp only
    split_ifs
    · exact .throw _
    · refine .bind (.ofExcept _) fun advances => ?_
      split_ifs
      · exact .pure _
      · refine .bind ?_ fun _ => .invoke trivial
        unfold verifyLeavingSelected
        split_ifs
        · exact OnlyReads.settles (verifyPlannedInputs_onlyReads _ _)
        · exact .pure _

end Orchestrator

/-! ## Recording and committing -/

/-- Reads, and the calls that record, commit and fail the intents of `ids`. -/
def StoreCall.CommitsFor (ids : OperationId → Prop) : StoreCall → Prop
  | persistIntent selection => ids selection.operationId
  | markIntentCommitted id | markIntentFailed id => ids id
  | applyBatch _ => True
  | c => c.IsRead

theorem StoreCall.IsRead.commitsFor {ids : OperationId → Prop} {c : StoreCall} (h : c.IsRead) :
    c.CommitsFor ids := by
  cases c <;> trivial

/-- Reads, batches, and the calls that commit and fail the intents of `ids`. -/
def StoreCall.MarksFor (ids : OperationId → Prop) : StoreCall → Prop
  | markIntentCommitted id | markIntentFailed id => ids id
  | applyBatch _ => True
  | c => c.IsRead

theorem StoreCall.IsRead.marksFor {ids : OperationId → Prop} {c : StoreCall} (h : c.IsRead) :
    c.MarksFor ids := by
  cases c <;> trivial

theorem StoreCall.MarksFor.commitsFor {ids : OperationId → Prop} {c : StoreCall}
    (h : c.MarksFor ids) : c.CommitsFor ids := by
  cases c <;> first | exact h | exact h.elim

/-- Clients restricted to recording and committing the intents of `ids`. -/
abbrev OnlyCommits {α : Type} (ids : OperationId → Prop) (p : Client α) : Prop :=
  p.OnlyCalls (StoreCall.CommitsFor ids)

/-- Clients restricted to committing the intents of `ids`, once recorded. -/
abbrev OnlyMarks {α : Type} (ids : OperationId → Prop) (p : Client α) : Prop :=
  p.OnlyCalls (StoreCall.MarksFor ids)

theorem OnlyReads.marks {α : Type} {ids : OperationId → Prop} {p : Client α}
    (h : OnlyReads p) : OnlyMarks ids p :=
  h.mono fun _ => StoreCall.IsRead.marksFor

theorem OnlyMarks.commits {α : Type} {ids : OperationId → Prop} {p : Client α}
    (h : OnlyMarks ids p) : OnlyCommits ids p :=
  h.mono fun _ => StoreCall.MarksFor.commitsFor

theorem OnlyReads.commits {α : Type} {ids : OperationId → Prop} {p : Client α}
    (h : OnlyReads p) : OnlyCommits ids p :=
  h.mono fun _ => StoreCall.IsRead.commitsFor

namespace Orchestrator

variable {ids : OperationId → Prop}

/-- A proposal is made of its request and of the inputs selected. -/
theorem proposeOperation_returns (request : SelectionRequest) :
    (proposeOperation request).Returns fun selection =>
      ∃ inputs, selection = .fromRequest request.intoOperationRequest inputs := by
  unfold proposeOperation
  refine .bind (.any _) fun _ _ => .bind (.any _) fun account _ => ?_
  cases account with
  | none => exact .throw _
  | some account =>
    dsimp only
    split_ifs
    · exact .throw _
    · refine .bind (.any _) fun eligible _ => ?_
      split_ifs
      · exact .throw _
      · exact .bind (.any _) fun inputs _ => .pure ⟨inputs, rfl⟩

theorem commitSelection_onlyMarks (owner : String) (selection : OperationSelection) :
    OnlyMarks ids (commitSelection owner selection) :=
  .bind (.invoke trivial) fun _ =>
    .bind (OnlyReads.marks (requireSelected_onlyReads _ _)) fun _ =>
      .bind (OnlyReads.marks (validateSelection_onlyReads _)) fun _ => .invoke trivial

/-- What follows a commit that was attempted: the intent is marked, or the attempt was in vain. -/
theorem commitRecordedIntent_onlyMarks (owner : String) {id : OperationId} (h : ids id) :
    OnlyMarks ids (commitRecordedIntent owner id) := by
  unfold commitRecordedIntent
  refine .bind (.invoke trivial) fun intent => ?_
  cases intent with
  | none => exact .throw _
  | some intent =>
    dsimp only
    cases intent.status with
    | committed => exact .pure _
    | failed => exact .throw _
    | pending =>
      refine .bind (.attempt (commitSelection_onlyMarks owner _)) fun result => ?_
      split
      · exact .invoke h
      · exact .throw _
      · refine .bind (OnlyReads.marks (isPendingLockConflict_onlyReads _ _)) fun conflict => ?_
        split_ifs
        · exact .throw _
        · exact .bind (.invoke h) fun _ => .throw _

theorem failRecordedIntent_onlyMarks {id : OperationId} (h : ids id) :
    OnlyMarks ids (failRecordedIntent id) := by
  unfold failRecordedIntent
  refine .bind (.invoke trivial) fun intent => ?_
  cases intent with
  | none => exact .throw _
  | some intent =>
    dsimp only
    cases intent.status with
    | pending => exact .invoke h
    | committed => exact .throw _
    | failed => exact .pure _

theorem applySelection_onlyCommits (owner : String) {selection : OperationSelection}
    (h : ids selection.operationId) : OnlyCommits ids (applySelection owner selection) :=
  .bind (.invoke h) fun _ => OnlyMarks.commits (commitRecordedIntent_onlyMarks owner h)

theorem preparePendingOperation_onlyCommits {request : SelectionRequest}
    (h : ids request.operationId) : OnlyCommits ids (preparePendingOperation request) := by
  refine .bind_returns (OnlyReads.commits (proposeOperation_onlyReads request))
    (proposeOperation_returns request) ?_
  rintro _ ⟨inputs, rfl⟩
  exact .bind (.invoke h) fun _ => .pure _

/-- What is prepared was proposed. -/
theorem preparePendingOperation_returns (request : SelectionRequest) :
    (preparePendingOperation request).Returns fun selection =>
      ∃ inputs, selection = .fromRequest request.intoOperationRequest inputs :=
  .bind (proposeOperation_returns request) fun _ h => .bind (.any _) fun _ _ => .pure h

theorem prepareOperation_onlyCommits (owner : String) {request : SelectionRequest}
    (h : ids request.operationId) : OnlyCommits ids (prepareOperation owner request) := by
  refine .bind_returns (preparePendingOperation_onlyCommits h)
    (preparePendingOperation_returns request) ?_
  rintro _ ⟨inputs, rfl⟩
  exact .bind (OnlyMarks.commits (commitRecordedIntent_onlyMarks owner h)) fun _ => .pure _

theorem recoverPass_onlyMarks (owner : String) (pending : List OperationIntent)
    (report : RecoveryReport) :
    OnlyMarks (fun _ => True) (recoverPass owner pending report) := by
  induction pending generalizing report with
  | nil => exact .pure _
  | cons intent pending ih =>
    unfold recoverPass
    refine .bind (.attempt (commitSelection_onlyMarks owner _)) fun result => ?_
    split
    · exact .bind (.invoke trivial) fun _ => .bind (ih _) fun _ => .pure _
    · exact .throw _
    · refine .bind (OnlyReads.marks (isPendingLockConflict_onlyReads _ _)) fun conflict => ?_
      split_ifs
      · exact .bind (ih _) fun _ => .pure _
      · exact .bind (.invoke trivial) fun _ => .bind (ih _) fun _ => .pure _

theorem recoverLoop_onlyMarks (owner : String) (rounds : ℕ) {pending : List OperationIntent}
    (hlen : pending.length ≤ rounds) (report : RecoveryReport) :
    OnlyMarks (fun _ => True) (recoverLoop owner rounds pending hlen report) := by
  induction rounds generalizing pending report with
  | zero =>
    obtain rfl := List.length_eq_zero_iff.mp (Nat.le_zero.mp hlen)
    exact .pure _
  | succ rounds ih =>
    cases pending with
    | nil => exact .pure _
    | cons intent pending =>
      unfold recoverLoop
      refine .bind (recoverPass_onlyMarks owner _ report) fun pass => ?_
      split_ifs
      · exact ih _ _
      · exact .pure _

theorem recoverPendingIntents_onlyMarks (owner : String) :
    OnlyMarks (fun _ => True) (recoverPendingIntents owner) :=
  .bind (.invoke trivial) fun _ => recoverLoop_onlyMarks owner _ _ _

end Orchestrator

/-! ## What is recorded -/

/-- A call records no other selections than those of `R`. -/
def StoreCall.Records (R : OperationSelection → Prop) : StoreCall → Prop
  | persistIntent selection => R selection
  | _ => True

/-- Clients that record no other selections than those of `R`. -/
abbrev OnlyRecords {α : Type} (R : OperationSelection → Prop) (p : Client α) : Prop :=
  p.OnlyCalls (StoreCall.Records R)

variable {R : OperationSelection → Prop}

theorem OnlySettles.records {α : Type} {p : Client α} (h : OnlySettles p) : OnlyRecords R p := by
  refine h.mono fun c hc => ?_
  cases c <;> trivial

theorem OnlyReads.records {α : Type} {p : Client α} (h : OnlyReads p) : OnlyRecords R p :=
  OnlySettles.records (OnlyReads.settles h)

theorem OnlyMarks.records {α : Type} {ids : OperationId → Prop} {p : Client α}
    (h : OnlyMarks ids p) : OnlyRecords R p := by
  refine h.mono fun c hc => ?_
  cases c <;> trivial

namespace Orchestrator

theorem commitRecordedIntent_onlyRecords (owner : String) (id : OperationId) :
    OnlyRecords R (commitRecordedIntent owner id) := by
  have hmarks : OnlyMarks (fun _ => True) (commitRecordedIntent owner id) :=
    commitRecordedIntent_onlyMarks owner trivial
  exact OnlyMarks.records hmarks

theorem applySelection_onlyRecords (owner : String) {selection : OperationSelection}
    (h : R selection) : OnlyRecords R (applySelection owner selection) :=
  .bind (.invoke h) fun _ => commitRecordedIntent_onlyRecords owner _

theorem prepareOperation_onlyRecords (owner : String) {request : SelectionRequest}
    (h : ∀ inputs, R (.fromRequest request.intoOperationRequest inputs)) :
    OnlyRecords R (prepareOperation owner request) := by
  refine .bind (.bind_returns (OnlyReads.records (proposeOperation_onlyReads request))
    (proposeOperation_returns request) ?_) fun selection => .bind
      (commitRecordedIntent_onlyRecords owner _) fun _ => .pure _
  rintro _ ⟨inputs, rfl⟩
  exact .bind (.invoke (h inputs)) fun _ => .pure _

end Orchestrator

end Txoscope
