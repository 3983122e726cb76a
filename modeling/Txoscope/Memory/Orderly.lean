import Txoscope.Memory.Proposals

/-!
# Orderly stores

A store is orderly if every selection on record is well-formed. In such a store the clients of the
orchestrator come across nothing that would have to be reported as corrupted, and they leave it
orderly: a selector finds its candidates again and has an input to return
(`proposeOperation_sane`), and what is recorded and committed is what was proposed
(`intact_prepareOperation`).
-/

namespace Txoscope

/-- A call that applies no batch, and records a selection only if it is well-formed. -/
def StoreCall.Orderly : StoreCall → Prop
  | persistIntent selection => selection.WellFormed
  | applyBatch _ => False
  | _ => True

theorem StoreCall.Orderly.records {c : StoreCall} (h : c.Orderly) :
    c.Records OperationSelection.WellFormed := by
  cases c <;> first | exact h | trivial

theorem PersistedOperation.validateAdvance_sane (operation : PersistedOperation)
    (phase : OperationPhase) : FailsOnly DomainError.Sane (operation.validateAdvance phase) := by
  unfold validateAdvance
  split_ifs
  · exact .ok _
  · exact .error trivial
  · exact .ok _

namespace InMemoryStateStore

variable {s s' : InMemoryStateStore} {P : DomainError → Prop}

/-! ## Errors of clients that read -/

section Reads

variable {α β : Type}

theorem reads_ok (c : StoreCall) (s : InMemoryStateStore) (h : c.IsRead) :
    ∃ a, (exec c s).1 = .ok a := by
  cases c <;> first | exact h.elim | exact ⟨_, rfl⟩

/-- A client that reads fails with what it raises itself. -/
theorem fails_of_throws {p : Client α} (hp : OnlyReads p) (h : p.Throws P) :
    FailsOnly P (Program.eval exec p s) :=
  fun _ he => Program.Throws.of_run reads_ok hp h he

/-- Reading first, and what is done with what was read. -/
theorem eval_bind_fails {p : Client α} {f : α → Client β} (hp : OnlyReads p)
    (h : FailsOnly P (Program.eval exec p s))
    (hf : ∀ a, Program.eval exec p s = .ok a → FailsOnly P (Program.eval exec (f a) s)) :
    FailsOnly P (Program.eval exec (p >>= f) s) := by
  rw [hp.eval_bind reads_snd]
  exact h.bind_ok hf

end Reads

/-! ## Proposals -/

section Proposals

variable {ctx : SelectionContext}

theorem isPolicySpendable_throws (u : ManagedUtxo) :
    (SelectionContext.isPolicySpendable u).Throws P := by
  unfold SelectionContext.isPolicySpendable
  split_ifs
  · exact .bind (.invoke _) fun _ => .pure _
  · exact .pure _

/-- Looking for a candidate to lock raises nothing. -/
theorem isSelectableCandidate_throws (o : OutPoint) : (ctx.isSelectableCandidate o).Throws P := by
  refine .bind (.invoke _) fun utxo => ?_
  cases utxo with
  | none => exact .pure _
  | some utxo =>
    dsimp only
    split_ifs
    · exact isPolicySpendable_throws utxo
    · exact .pure _

theorem firstSelectable_throws (candidates : List OutPoint) :
    (Txoscope.firstSelectable ctx candidates).Throws P := by
  induction candidates with
  | nil => exact .pure _
  | cons o candidates ih =>
    refine .bind (isSelectableCandidate_throws o) fun selectable => ?_
    split_ifs
    · exact .pure _
    · exact ih

theorem eligibleScopes_throws (accountId : AccountId) (required : CapabilitySet)
    (ids : List WalletScopeId) :
    (Orchestrator.eligibleScopes accountId required ids).Throws P := by
  induction ids with
  | nil => exact .pure _
  | cons id ids ih =>
    refine .bind (.invoke _) fun scope => .bind ih fun eligible => ?_
    split_ifs
    · exact .pure _
    · exact .pure _

theorem requireSelectableCandidate_throws (o : OutPoint) :
    (ctx.requireSelectableCandidate o).Throws DomainError.Sane := by
  refine .bind (.invoke _) fun utxo => ?_
  cases utxo with
  | none => exact .throw trivial
  | some utxo =>
    dsimp only
    split_ifs
    · exact .throw trivial
    · exact .throw trivial
    · refine .bind (isPolicySpendable_throws utxo) fun spendable => ?_
      split_ifs
      · exact .pure _
      · exact .bind (.invoke _) fun _ => .throw trivial
    · refine .bind (.invoke _) fun scope => ?_
      split_ifs
      · exact .throw trivial
      · exact .throw trivial
    · exact .throw trivial

/-- A selector that has an input to return finds its scope, or does not find the input. -/
theorem withChangeScope_throws {outpoints : List OutPoint} (hne : outpoints ≠ [])
    (h : ∀ o, P (.utxoNotFound o)) : (withChangeScope outpoints).Throws P := by
  obtain ⟨first, rest, rfl⟩ := List.exists_cons_of_ne_nil hne
  refine .bind (.invoke _) fun utxo => ?_
  cases utxo with
  | none => exact .throw (h first)
  | some utxo => exact .pure _

/-- Candidates that are on record are found when they are sorted. -/
theorem readKeyed_sane {candidates : List OutPoint}
    (h : ∀ o ∈ candidates, ∃ u, s.getUtxo o = some u) :
    FailsOnly DomainError.Sane (Program.eval exec (SelectionSortPolicy.readKeyed candidates) s) := by
  induction candidates with
  | nil => exact .ok _
  | cons o candidates ih =>
    rw [List.forall_mem_cons] at h
    obtain ⟨u, hu⟩ := h.1
    unfold SelectionSortPolicy.readKeyed
    rw [eval_getUtxo_bind, hu]
    refine eval_bind_fails (SelectionSortPolicy.readKeyed_onlyReads _) (ih h.2) fun keyed _ => ?_
    exact .ok _

/-- Candidates that are on record are found when they are summed up. -/
theorem accumulateByValue_sane (target : ℕ) {candidates : List OutPoint}
    (h : ∀ o ∈ candidates, ∃ u, s.getUtxo o = some u) (acc : ℕ) :
    FailsOnly DomainError.Sane
      (Program.eval exec (SelectionSortPolicy.accumulateByValue target candidates acc) s) := by
  induction candidates generalizing acc with
  | nil => exact .ok _
  | cons o candidates ih =>
    rw [List.forall_mem_cons] at h
    obtain ⟨u, hu⟩ := h.1
    unfold SelectionSortPolicy.accumulateByValue
    rw [eval_getUtxo_bind, hu]
    dsimp only
    split_ifs
    · exact .ok _
    · refine eval_bind_fails (SelectionSortPolicy.accumulateByValue_onlyReads _ _ _) (ih h.2 _)
        fun rest _ => ?_
      exact .ok _

/-- The selector of a target value loses none of its candidates. -/
theorem targetValueSelect_sane (hk : s.WellKeyed) (amount : ℕ) :
    FailsOnly DomainError.Sane (Program.eval exec (targetValueSelect ctx amount) s) := by
  have hscope : ctx.preferredScope.Throws DomainError.Sane := by
    have hread : ∀ ids, (SelectionContext.readScopes ids).Throws DomainError.Sane := by
      intro ids
      induction ids with
      | nil => exact .pure _
      | cons id ids ih => exact .bind (.invoke _) fun _ => .bind ih fun _ => .pure _
    refine .bind (hread _) fun scopes => ?_
    cases preferScope scopes with
    | none => exact .throw trivial
    | some scope => exact .pure _
  have hlist : Program.eval exec ctx.selectableUtxos s =
      Program.eval exec (ctx.selectableAmong s.listUtxos) s := rfl
  unfold targetValueSelect
  refine eval_bind_fails (SelectionContext.preferredScope_onlyReads ctx)
    (fails_of_throws (SelectionContext.preferredScope_onlyReads ctx) hscope) fun scope _ => ?_
  refine eval_bind_fails (SelectionContext.selectableUtxos_onlyReads ctx) ?_
    fun candidates hcandidates => ?_
  · rw [hlist, eval_selectableAmong]
    exact .ok _
  -- the candidates are offered, so they are on record
  have hfound : ∀ o ∈ candidates, ∃ u, s.getUtxo o = some u := fun o ho =>
    ((selectableUtxos_offers hk hcandidates).2 o ho).utxo.imp fun _ hu => hu.1
  refine eval_bind_fails (SelectionSortPolicy.sortCandidateIds_onlyReads _) ?_
    fun sorted hsorted => ?_
  · exact eval_bind_fails (SelectionSortPolicy.readKeyed_onlyReads _) (readKeyed_sane hfound)
      fun keyed _ => .ok _
  have hperm := sortCandidateIds_perm hsorted
  refine eval_bind_fails (SelectionSortPolicy.accumulateByValue_onlyReads _ _ _)
    (accumulateByValue_sane amount (fun o ho => hfound o (hperm.subset ho)) 0) fun selected _ => ?_
  cases selected with
  | none => exact .error trivial
  | some selected => exact .ok _

theorem checkUnique_ofRequest (message : String) (outpoints : List OutPoint)
    (unique : Finset OutPoint) :
    FailsOnly DomainError.OfRequest (Orchestrator.checkUnique message outpoints unique) := by
  induction outpoints generalizing unique with
  | nil => exact .ok ()
  | cons o outpoints ih =>
    unfold Orchestrator.checkUnique
    split_ifs
    · exact .error ⟨_, rfl⟩
    · exact ih _

theorem checkSpec_sane (spec : InputSelectionSpec) :
    FailsOnly DomainError.Sane (Orchestrator.checkSpec spec) := by
  cases spec with
  | targetValue amount => exact .ok ()
  | firstSelectable candidates => exact .ok ()
  | exactOutpoints outpoints =>
    cases outpoints with
    | nil => exact .error trivial
    | cons o outpoints => exact (checkUnique_ofRequest _ _ _).mono fun _ h => h.sane

/-- A selector loses no candidate and has an input to return. -/
theorem selectInputs_sane (hk : s.WellKeyed) {spec : InputSelectionSpec}
    (hspec : Orchestrator.checkSpec spec = .ok ()) :
    FailsOnly DomainError.Sane (Program.eval exec (selectInputs ctx spec) s) := by
  cases spec with
  | targetValue amount => exact targetValueSelect_sane hk amount
  | exactOutpoints outpoints =>
    have hne : outpoints ≠ [] := by
      rintro rfl
      cases hspec
    refine fails_of_throws (selectInputs_onlyReads _ _) (.bind ?_ fun _ =>
      withChangeScope_throws hne fun _ => trivial)
    exact .forEach requireSelectableCandidate_throws outpoints
  | firstSelectable candidates =>
    refine fails_of_throws (selectInputs_onlyReads _ _)
      (.bind (firstSelectable_throws _) fun first => ?_)
    cases first with
    | none => exact .throw trivial
    | some first => exact withChangeScope_throws (List.cons_ne_nil _ _) fun _ => trivial

/-- No proposal reports a corrupted state. -/
theorem proposeOperation_sane (hk : s.WellKeyed) (request : SelectionRequest) :
    FailsOnly DomainError.Sane (Program.eval exec (Orchestrator.proposeOperation request) s) := by
  unfold Orchestrator.proposeOperation
  dsimp only
  refine eval_bind_fails (.ofExcept _) (checkSpec_sane _) fun u hspec => ?_
  rw [eval_getAccount_bind]
  cases s.getAccount request.intoOperationRequest.selection.accountId with
  | none => exact .error trivial
  | some account =>
    dsimp only
    split_ifs
    · exact .error trivial
    · refine eval_bind_fails (Orchestrator.eligibleScopes_onlyReads _ _ _)
        (fails_of_throws (Orchestrator.eligibleScopes_onlyReads _ _ _)
          (eligibleScopes_throws _ _ _)) fun eligible _ => ?_
      split_ifs
      · exact .error trivial
      · exact eval_bind_fails (selectInputs_onlyReads _ _) (selectInputs_sane hk hspec)
          fun inputs _ => .ok _

end Proposals

/-! ## Orderly stores -/

/-- Every selection on record is well-formed. -/
structure Orderly (s : InMemoryStateStore) : Prop where
  keyed : s.WellKeyed
  wellFormed : ∀ id i, s.getIntent id = some i → i.selection.WellFormed

/-- What a call records satisfies `R` if every selection on record does. -/
theorem records_exec {R : OperationSelection → Prop} (hk : s.WellKeyed)
    (h : ∀ id i, s.getIntent id = some i → R i.selection) {c : StoreCall} (hc : c.Records R)
    {id : OperationId} {i' : OperationIntent} (hi' : (exec c s).2.getIntent id = some i') :
    R i'.selection := by
  have hledger : (exec c s).2.toLedger.intent id = some i' := hi'
  rw [(exec_refines hk c).2] at hledger
  rcases Ledger.exec_intent hledger with ⟨i, hi, hsel⟩ | rfl
  · exact hsel ▸ h id i hi
  · exact hc

theorem records_run {R : OperationSelection → Prop} {α : Type} {p : Client α} (hk : s.WellKeyed)
    (h : ∀ id i, s.getIntent id = some i → R i.selection) (hp : OnlyRecords R p)
    {id : OperationId} {i' : OperationIntent}
    (hi' : (Program.run exec p s).2.getIntent id = some i') : R i'.selection := by
  induction p generalizing s with
  | done r => exact h id i' hi'
  | call c k ih => exact ih _ (hk.exec c) (fun _ _ => records_exec hk h hp.1) (hp.2 _) hi'

theorem wellKeyed_run (hk : s.WellKeyed) {α : Type} (p : Client α) :
    (Program.run exec p s).2.WellKeyed := by
  induction p generalizing s with
  | done r => exact hk
  | call c k ih => exact ih _ (hk.exec c)

namespace Orderly

theorem empty : InMemoryStateStore.empty.Orderly := ⟨.empty, fun _ _ h => (nomatch h)⟩

theorem run (h : s.Orderly) {α : Type} {p : Client α}
    (hp : OnlyRecords OperationSelection.WellFormed p) : (Program.run exec p s).2.Orderly :=
  ⟨wellKeyed_run h.keyed p, fun _ _ => records_run h.keyed h.wellFormed hp⟩

theorem sameContents (h : s.Orderly) (hs : s.SameContents s') : s'.Orderly :=
  ⟨h.keyed.sameContents hs, fun id i hi => h.wellFormed id i ((hs.intents id).trans hi)⟩

end Orderly

/-! ## Clients of the orchestrator -/

section Clients

variable {α : Type} {p : Client α} {owner : String} {id : OperationId}
  {selection : OperationSelection}

/-- Run in `s`, the client reports no corruption and leaves an orderly store; a result satisfies
`Q`. -/
abbrev Intact (s : InMemoryStateStore) (p : Client α) (Q : α → Prop) : Prop :=
  p.Ends exec (fun e t => e.Sane ∧ t.Orderly) (fun a t => t.Orderly ∧ Q a) s

theorem Intact.orderly {Q : α → Prop} (h : s.Intact p Q) : (Program.run exec p s).2.Orderly := by
  obtain ⟨⟨r, s'⟩, hrun⟩ : ∃ x, Program.run exec p s = x := ⟨_, rfl⟩
  rw [hrun]
  cases r with
  | ok a => exact (h.result hrun).1
  | error e => exact (h.error hrun).2

theorem Intact.sane {Q : α → Prop} (h : s.Intact p Q) (reason : String) :
    (Program.run exec p s).1 ≠ .error (.corruptedState reason) := by
  intro herror
  exact (h.error (Prod.ext herror rfl)).1

theorem intact_of_records (h : s.Orderly) (hp : OnlyRecords OperationSelection.WellFormed p)
    (herror : ∀ e s', Program.run exec p s = (.error e, s') → e.Sane) :
    s.Intact p fun _ => True := by
  have hs := h.run hp
  refine .of_run (fun a s' hrun => ?_) fun e s' hrun => ?_
  · rw [hrun] at hs
    exact ⟨hs, trivial⟩
  · rw [hrun] at hs
    exact ⟨herror e s' hrun, hs⟩

theorem intact_of_reads (h : s.Orderly) (hp : OnlyReads p)
    (hsane : FailsOnly DomainError.Sane (Program.eval exec p s)) :
    s.Intact p fun a => Program.eval exec p s = .ok a := by
  have hreads := hp.run_eq reads_snd s
  refine .of_run (fun a s' hrun => ?_) fun e s' hrun => ?_
  · obtain ⟨hok, rfl⟩ := Prod.mk.inj (hreads.symm.trans hrun)
    exact ⟨h, hok⟩
  · obtain ⟨herror, rfl⟩ := Prod.mk.inj (hreads.symm.trans hrun)
    exact ⟨hsane e herror, h⟩

/-- No call but a batch reports a corrupted state. -/
theorem exec_sane {c : StoreCall} (hc : c.Orderly) (s : InMemoryStateStore) :
    FailsOnly DomainError.Sane (exec c s).1 := by
  cases c with
  | applyBatch => exact hc.elim
  | putScope scope =>
    change FailsOnly DomainError.Sane (s.putScope scope).1
    unfold putScope
    split
    · exact .error trivial
    · exact .ok ()
  | persistIntent selection =>
    change FailsOnly DomainError.Sane (s.persistIntent selection).1
    unfold persistIntent
    split
    · split_ifs
      · exact .error trivial
      · exact .ok _
    · exact .ok _
  | markIntentCommitted id =>
    change FailsOnly DomainError.Sane (s.markIntentCommitted id).1
    unfold markIntentCommitted
    split
    · exact .error trivial
    · split_ifs
      · exact .error trivial
      · exact .ok ()
  | markIntentFailed id =>
    change FailsOnly DomainError.Sane (s.markIntentFailed id).1
    unfold markIntentFailed
    split
    · exact .error trivial
    · split
      · exact .error trivial
      · exact .ok ()
      · split
        · exact .ok ()
        · split
          · exact .ok ()
          · exact .ok ()
          · exact .error trivial
  | completeOperation id phase =>
    change FailsOnly DomainError.Sane (s.completeOperation id phase).1
    unfold completeOperation
    split
    · exact .error trivial
    · rename_i operation _
      have hadvance := operation.validateAdvance_sane phase
      split
      · exact .error trivial
      · split_ifs
        · exact .error trivial
        · split
          · rename_i e he
            exact .error (hadvance e he)
          · exact .ok _
          · exact .ok _
  | _ => exact .ok _

theorem intact_call (h : s.Orderly) (c : StoreCall) (hc : c.Orderly) :
    s.Intact c.invoke fun _ => True :=
  intact_of_records h (.invoke hc.records) fun e _ hrun =>
    exec_sane hc s e (congrArg Prod.fst hrun)

theorem intact_ofExcept (h : s.Orderly) {r : DomainResult α} (hr : FailsOnly DomainError.Sane r) :
    s.Intact (Program.ofExcept r) fun _ => True :=
  .ofExcept (fun _ _ => ⟨h, trivial⟩) fun e he => ⟨hr e he, h⟩

/-- What is done with the result alone is no matter. -/
theorem intact_map {β : Type} {Q : α → Prop} (hp : s.Intact p Q) (f : α → β) :
    s.Intact (do let a ← p; return f a) fun _ => True :=
  .bind hp fun _ _ ht => .pure ⟨ht.1, trivial⟩

theorem intact_forEach (h : s.Orderly) {f : α → Client Unit}
    (hf : ∀ (a : α) (t : InMemoryStateStore), t.Orderly → t.Intact (f a) fun _ => True)
    (as : List α) : s.Intact (Program.forEach f as) fun _ => True :=
  .forEach (I := fun t : InMemoryStateStore => t.Orderly ∧ True) (fun a t ht => hf a t ht.1) as
    ⟨h, trivial⟩

theorem intact_commitSelection (h : s.Orderly) (hw : selection.WellFormed) :
    s.Intact (Orchestrator.commitSelection owner selection) fun _ => True := by
  have hmarks : OnlyMarks (fun _ => True) (Orchestrator.commitSelection owner selection) :=
    Orchestrator.commitSelection_onlyMarks owner selection
  exact intact_of_records h (OnlyMarks.records hmarks) fun _ _ => commitSelection_sane hw

theorem intact_commitRecordedIntent (h : s.Orderly) :
    s.Intact (Orchestrator.commitRecordedIntent owner id) fun _ => True := by
  have hread : Program.run exec (StoreCall.getIntent id).invoke s = (.ok (s.getIntent id), s) := rfl
  refine .bind_of_run hread ?_
  cases hi : s.getIntent id with
  | none => exact .throw ⟨trivial, h⟩
  | some i =>
    dsimp only
    cases i.status with
    | committed => exact .pure ⟨h, trivial⟩
    | failed => exact .throw ⟨trivial, h⟩
    | pending =>
      refine .attempt_bind (intact_commitSelection h (h.wellFormed id i hi))
        (fun _ t ht => intact_call ht.1 (.markIntentCommitted id) trivial) fun e t he => ?_
      split
      · rename_i heq
        cases heq
      · rename_i heq
        cases heq
        exact .throw he
      · rename_i heq
        cases heq
        refine .bind_of_run (run_isPendingLockConflict id e) ?_
        split_ifs
        · exact .throw he
        · exact .bind (intact_call he.2 (.markIntentFailed id) trivial) fun _ _ ht =>
            .throw ⟨he.1, ht.1⟩

theorem intact_applySelection (h : s.Orderly) (hw : selection.WellFormed) :
    s.Intact (Orchestrator.applySelection owner selection) fun _ => True :=
  .bind (intact_call h (.persistIntent selection) hw) fun _ _ ht =>
    intact_commitRecordedIntent ht.1

/-- What is prepared is a well-formed selection, with the expiry asked for. -/
theorem intact_prepareOperation (h : s.Orderly) (request : SelectionRequest) :
    s.Intact (Orchestrator.prepareOperation owner request) fun selection =>
      selection.WellFormed ∧
        selection.expiresAt = request.intoOperationRequest.locking.expiresAt := by
  have hpending : s.Intact (Orchestrator.preparePendingOperation request) fun selection =>
      selection.WellFormed ∧
        selection.expiresAt = request.intoOperationRequest.locking.expiresAt := by
    refine .bind (intact_of_reads h (Orchestrator.proposeOperation_onlyReads request)
      (proposeOperation_sane h.keyed request)) fun selection t ht => ?_
    have hproposed := proposeOperation_proposed h.keyed ht.2
    have hw := (hproposed.ready h.keyed).authorised.wellFormed
    obtain ⟨ctx, inputs, rfl, -⟩ := hproposed.inputs
    exact .bind (intact_call ht.1 (.persistIntent _) hw) fun _ _ ht' => .pure ⟨ht'.1, hw, rfl⟩
  exact .bind hpending fun _ _ ht => .bind (intact_commitRecordedIntent ht.1) fun _ _ ht' =>
    .pure ⟨ht'.1, ht.2⟩

theorem intact_currentOperation (h : s.Orderly) :
    s.Intact (Orchestrator.currentOperation id) fun _ => True := by
  refine .bind (intact_call h (.getOperation id) trivial) fun operation t ht => ?_
  cases operation with
  | none => exact .throw ⟨trivial, ht.1⟩
  | some operation => exact .pure ht

theorem intact_releaseOperation (h : s.Orderly) :
    s.Intact (Orchestrator.releaseOperation id) fun _ => True := by
  refine .bind (intact_currentOperation h) fun operation t ht => ?_
  split_ifs
  · exact .pure ht
  · exact intact_call ht.1 (.releaseOperation id .rollingBack) trivial

theorem intact_verifyPlannedInputs (h : s.Orderly) (outpoints : List OutPoint) :
    s.Intact (Orchestrator.verifyPlannedInputs id outpoints) fun _ => True := by
  refine .bind (intact_call h (.getIntent id) trivial) fun intent t ht => ?_
  cases intent with
  | none => exact .throw ⟨trivial, ht.1⟩
  | some intent =>
    dsimp only
    split_ifs
    · exact .pure ht
    · exact .throw ⟨trivial, ht.1⟩

theorem intact_completeOperation (h : s.Orderly) (phase : OperationPhase)
    (outpoints : List OutPoint) :
    s.Intact (Orchestrator.completeOperation id phase outpoints) fun _ => True := by
  refine .bind (intact_currentOperation h) fun operation t ht => ?_
  refine .bind (intact_call ht.1 (.getIntent id) trivial) fun intent t ht => ?_
  cases intent with
  | none => exact .throw ⟨trivial, ht.1⟩
  | some intent =>
    dsimp only
    split_ifs
    · exact .throw ⟨trivial, ht.1⟩
    · refine .bind (intact_ofExcept ht.1 (operation.validateAdvance_sane phase))
        fun advances t ht => ?_
      split_ifs
      · exact .pure ht
      · have hverify : t.Intact (Orchestrator.verifyLeavingSelected id operation outpoints)
            fun _ => True := by
          unfold Orchestrator.verifyLeavingSelected
          split_ifs
          · exact intact_verifyPlannedInputs ht.1 outpoints
          · exact .pure ht
        exact .bind hverify fun _ _ ht => intact_call ht.1 (.completeOperation id phase) trivial

theorem intact_cleanupStaleReservations (h : s.Orderly) (maxAge : ℕ) :
    s.Intact (Orchestrator.cleanupStaleReservations maxAge) fun _ => True := by
  have hrelease : ∀ (ids : List OperationId) (report : CleanupReport) {s : InMemoryStateStore},
      s.Orderly → s.Intact (Orchestrator.releaseStale ids report) fun _ => True := by
    intro ids
    induction ids with
    | nil => exact fun _ _ h => .pure ⟨h, trivial⟩
    | cons id ids ih =>
      intro report s h
      refine .bind (intact_call h (.releaseSelectedOperation id) trivial) fun released t ht => ?_
      cases released with
      | none => exact ih _ ht.1
      | some released => exact ih _ ht.1
  exact .bind (intact_call h .currentTick trivial) fun _ _ ht =>
    .bind (intact_call ht.1 .listOperations trivial) fun _ _ ht => hrelease _ _ ht.1

theorem intact_reconcileSnapshot (h : s.Orderly) (snapshot : ObservationSnapshot) :
    s.Intact (Orchestrator.reconcileSnapshot snapshot) fun _ => True := by
  have hplan : s.Intact (ReconciliationPlanner.plan snapshot) fun _ => True :=
    .bind (intact_call h .listUtxos trivial) fun _ _ ht => .pure ht
  exact .bind hplan fun plan _ ht =>
    .bind (intact_call ht.1 (.applyReconciliation plan) trivial) fun _ _ ht => .pure ht

end Clients

end InMemoryStateStore

end Txoscope
