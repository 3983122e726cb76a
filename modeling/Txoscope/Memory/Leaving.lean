import Txoscope.Lib.Histories
import Txoscope.Memory.Safety

/-!
# Leaving `Selected`

`complete_operation` verifies the inputs it is given only if the phase it has read is `Selected`,
and writes in a later call. Whatever other clients do between these calls, the phase never returns
to `Selected`, a recorded selection never changes and a committed intent stays committed, so the
call that moves an operation out of `Selected` has verified its inputs.
-/

namespace Txoscope

/-- A phase past `Selected` that is not `RollingBack`. -/
def OperationPhase.IsForward (p : OperationPhase) : Prop := p ≠ .selected ∧ p ≠ .rollingBack

/-- A phase that has left `Selected` does not come back to it. -/
theorem OperationPhase.MovesTo.ne_selected {p q : OperationPhase} (h : p.MovesTo q)
    (hp : p ≠ .selected) : q ≠ .selected := by
  rcases h with rfl | h
  · exact hp
  · rintro rfl
    simp [OperationPhase.rank] at h

/-- A committed intent stays committed. -/
theorem IntentStatus.MovesTo.of_committed {q : IntentStatus}
    (h : IntentStatus.committed.MovesTo q) : q = .committed := by
  rcases h with h | ⟨h, -⟩
  · exact h
  · cases h

/-! ## Calls other than `complete_operation` -/

/-- The call of a store that advances an operation. -/
def StoreCall.IsAdvance : StoreCall → Prop
  | completeOperation _ _ => True
  | _ => False

namespace Ledger

variable {rules : Rules} {l : Ledger}

/-- A call that does not advance leaves an operation as it is, selects it or rolls it back. -/
theorem operation_of_not_isAdvance {c : StoreCall} (hc : ¬ c.IsAdvance)
    (hadm : l.Admissible rules c) {id : OperationId} {op' : PersistedOperation}
    (hop' : (exec c l).2.operation id = some op') :
    l.operation id = some op' ∨ ¬ op'.phase.IsForward := by
  have hsame : ∀ {l' : Ledger}, l'.operation = l.operation → l'.operation id = some op' →
      l.operation id = some op' ∨ ¬ op'.phase.IsForward := fun heq h => .inl (heq ▸ h)
  have hset : ∀ {l' : Ledger} (id' : OperationId) (op₁ : PersistedOperation),
      ¬ op₁.phase.IsForward → l'.operation = Function.update l.operation id' (some op₁) →
        l'.operation id = some op' → l.operation id = some op' ∨ ¬ op'.phase.IsForward := by
    intro l' id' op₁ hphase heq h
    rw [heq, Function.update_apply] at h
    split_ifs at h
    · cases h
      exact .inr hphase
    · exact .inl h
  have hrolling : ¬ OperationPhase.rollingBack.IsForward := fun h => h.2 rfl
  cases c with
  | getAccount | getScope | getUtxo | getLock | getOperation | getIntent | listUtxos
  | listOperations | listPendingIntents | currentTick | putAccount | putUtxo | advanceTick
  | applyReconciliation => exact hsame rfl hop'
  | putScope scope =>
    refine hsame ?_ hop'
    change (l.putScope scope).2.operation = _
    unfold Ledger.putScope
    cases l.account scope.accountId <;> rfl
  | persistIntent selection =>
    refine hsame ?_ hop'
    change (l.persistIntent selection).2.operation = _
    unfold Ledger.persistIntent
    cases l.intent selection.operationId with
    | none => rfl
    | some existing =>
      dsimp only
      split_ifs <;> rfl
  | markIntentCommitted id' =>
    refine hsame ?_ hop'
    change (l.markIntentCommitted id').2.operation = _
    unfold Ledger.markIntentCommitted
    cases l.intent id' with
    | none => rfl
    | some i =>
      dsimp only
      split_ifs <;> rfl
  | markIntentFailed id' =>
    change (l.markIntentFailed id').2.operation id = _ at hop'
    unfold Ledger.markIntentFailed at hop'
    cases hi : l.intent id' with
    | none =>
      rw [hi] at hop'
      exact hsame rfl hop'
    | some i =>
      rw [hi] at hop'
      dsimp only at hop'
      split at hop'
      · exact hsame rfl hop'
      · exact hsame rfl hop'
      · split at hop'
        · exact hsame rfl hop'
        · split at hop'
          · exact hset id' _ hrolling rfl hop'
          · exact hsame rfl hop'
          · exact hsame rfl hop'
  | applyBatch batch =>
    change (l.applyBatch batch).2.operation id = _ at hop'
    unfold Ledger.applyBatch at hop'
    cases hv : l.validateBatch batch with
    | error e =>
      rw [hv] at hop'
      exact hsame rfl hop'
    | ok u =>
      rw [hv] at hop'
      exact hset _ _ (fun h => h.1 hadm.1) rfl hop'
  | releaseSelectedOperation id' =>
    change (l.releaseSelectedOperation id').2.operation id = _ at hop'
    unfold Ledger.releaseSelectedOperation at hop'
    split_ifs at hop'
    · exact hsame rfl hop'
    · exact hset id' _ hrolling rfl hop'
  | releaseOperation id' phase =>
    obtain rfl : phase = .rollingBack := hadm
    exact hset id' _ hrolling rfl hop'
  | completeOperation id' phase => exact (hc trivial).elim

/-- An advance brings its operation into the phase given, and leaves the others as they are. -/
theorem operation_completeOperation {id id' : OperationId} {phase : OperationPhase}
    {op' : PersistedOperation}
    (h : (exec (.completeOperation id' phase) l).2.operation id = some op') :
    l.operation id = some op' ∨ id' = id ∧ op'.phase = phase := by
  change (l.completeOperation id' phase).2.operation id = _ at h
  unfold Ledger.completeOperation at h
  cases hop : l.operation id' with
  | none =>
    rw [hop] at h
    exact .inl h
  | some op =>
    cases hi : l.intent id' with
    | none =>
      rw [hop, hi] at h
      exact .inl h
    | some i =>
      rw [hop, hi] at h
      dsimp only at h
      split_ifs at h
      · exact .inl h
      · split at h
        · exact .inl h
        · exact .inl h
        · change Function.update l.operation id' _ id = _ at h
          rw [Function.update_apply] at h
          split_ifs at h with hid
          · cases h
            exact .inr ⟨hid.symm, rfl⟩
          · exact .inl h

end Ledger

namespace InMemoryStateStore

variable {rules : Ledger.Rules} {s s' : InMemoryStateStore}

/-! ## Calls that leave `Selected` -/

/-- The call moves an operation from `Selected` to a forward phase. -/
def Leaves (s : InMemoryStateStore) (c : StoreCall) (id : OperationId) : Prop :=
  (∃ op, s.getOperation id = some op ∧ op.phase = .selected) ∧
    ∃ op', (exec c s).2.getOperation id = some op' ∧ op'.phase.IsForward

theorem Leaves.call (hk : s.WellKeyed) {c : StoreCall} (hadm : s.toLedger.Admissible rules c)
    {id : OperationId} (h : s.Leaves c id) : ∃ phase, c = .completeOperation id phase ∧
      ∀ op', (exec c s).2.getOperation id = some op' → op'.phase = phase := by
  obtain ⟨⟨op, hop, hphase⟩, op', hop', hforward⟩ := h
  have hledger : (Ledger.exec c s.toLedger).2.operation id = some op' := by
    rw [← (exec_refines hk c).2]
    exact hop'
  have hchanged : s.toLedger.operation id ≠ some op' := by
    intro heq
    rw [show s.toLedger.operation id = some op from hop] at heq
    cases heq
    exact hforward.1 hphase
  by_cases hc : c.IsAdvance
  · cases c with
    | completeOperation id' phase =>
      rcases Ledger.operation_completeOperation hledger with heq | ⟨rfl, hadvanced⟩
      · exact (hchanged heq).elim
      · refine ⟨phase, rfl, fun op₁ hop₁ => ?_⟩
        rw [hop'] at hop₁
        cases hop₁
        exact hadvanced
    | _ => exact hc.elim
  · rcases Ledger.operation_of_not_isAdvance hc hadm hledger with heq | hnot
    · exact (hchanged heq).elim
    · exact (hnot hforward).elim

/-- The method advances the operation and supplies the inputs of its committed intent. -/
def Verified (s : InMemoryStateStore) (m : Orchestrator.Method) (c : StoreCall)
    (id : OperationId) : Prop :=
  ∃ phase actual i, m = .completeOperation id phase actual ∧ c = .completeOperation id phase ∧
    s.getIntent id = some i ∧ i.status = .committed ∧
      actual.toFinset = i.selection.selectedOutpoints.toFinset

/-- What a call of the method may do: a call that leaves `Selected` has been verified. -/
def MayCall (rules : Ledger.Rules) (m : Orchestrator.Method) (s : InMemoryStateStore)
    (c : StoreCall) : Prop :=
  s.toLedger.Admissible rules c ∧ ∀ id, s.Leaves c id → s.Verified m c id

/-! ## What other clients may do meanwhile -/

/-- Other clients make moves of the ledger. -/
def Moved (rules : Ledger.Rules) (s s' : InMemoryStateStore) : Prop :=
  s.WellKeyed → s'.WellKeyed ∧ Ledger.Run rules s.toLedger s'.toLedger

theorem Moved.refl (s : InMemoryStateStore) : Moved rules s s := fun hk => ⟨hk, .refl⟩

theorem Moved.trans {s'' : InMemoryStateStore} (h : Moved rules s s') (h' : Moved rules s' s'') :
    Moved rules s s'' := fun hk =>
  ⟨(h' (h hk).1).1, (h hk).2.trans (h' (h hk).1).2⟩

theorem Moved.exec {c : StoreCall} (h : s.toLedger.Admissible rules c) :
    Moved rules s (InMemoryStateStore.exec c s).2 := fun hk =>
  ⟨hk.exec c, .single (exec_move hk h)⟩

theorem Moved.env (h : SameContents s s') : Moved rules s s' := fun hk =>
  ⟨hk.sameContents h, h.toLedger_eq ▸ .refl⟩

theorem Moved.interferes (h : Moved rules s s') : Interferes s s' := by
  refine fun hk => ⟨(h hk).1, fun id hi => ?_⟩
  obtain ⟨i, hi⟩ := Option.isSome_iff_exists.mp hi
  obtain ⟨i', hi', -⟩ := (h hk).2.intent_forward hi
  exact Option.isSome_iff_exists.mpr ⟨i', hi'⟩

/-! ## Methods -/

/-- A call that does not advance may be made by any method. -/
theorem mayCall_of_not_isAdvance (hk : s.WellKeyed) {m : Orchestrator.Method} {c : StoreCall}
    (hadm : s.toLedger.Admissible rules c) (hc : ¬ c.IsAdvance) : s.MayCall rules m c := by
  refine ⟨hadm, fun id hleaves => ?_⟩
  obtain ⟨phase, rfl, -⟩ := hleaves.call hk hadm
  exact (hc trivial).elim

/-- The last call of `complete_operation`: its operation had left `Selected` when it was read, or
the inputs are those of the recorded intent, which is committed. -/
theorem mayCall_completeOperation (hk : s.WellKeyed) {id : OperationId} {phase : OperationPhase}
    {actual : List OutPoint}
    (h : (∃ op, s.getOperation id = some op ∧ op.phase ≠ .selected) ∨
      ∃ i, s.getIntent id = some i ∧ i.status = .committed ∧
        actual.toFinset = i.selection.selectedOutpoints.toFinset) :
    s.MayCall rules (.completeOperation id phase actual) (.completeOperation id phase) := by
  have hadm : s.toLedger.Admissible rules (.completeOperation id phase) := trivial
  refine ⟨hadm, fun id' hleaves => ?_⟩
  obtain ⟨phase', heq, -⟩ := hleaves.call hk hadm
  cases heq
  rcases h with ⟨op, hop, hphase⟩ | ⟨i, hi, hcommitted, hactual⟩
  · obtain ⟨⟨op', hop', hselected⟩, -⟩ := hleaves
    rw [hop] at hop'
    cases hop'
    exact (hphase hselected).elim
  · exact ⟨phase, actual, i, rfl, rfl, hi, hcommitted, hactual⟩

/-- `complete_operation` verifies what it moves out of `Selected`, whatever others do meanwhile. -/
theorem meets_completeOperation (hk : s.WellKeyed) (id : OperationId) (phase : OperationPhase)
    (actual : List OutPoint) :
    (Orchestrator.completeOperation id phase actual).Meets exec (Moved rules)
      (MayCall rules (.completeOperation id phase actual)) (fun _ _ => True) s := by
  have hread : ∀ {s : InMemoryStateStore} {c : StoreCall}, s.WellKeyed → c.IsRead →
      s.MayCall rules (.completeOperation id phase actual) c := fun hk hc =>
    mayCall_of_not_isAdvance hk (admissible_of_harmless hc.harmless _) fun ha => by
      cases ‹StoreCall› <;> first | exact ha.elim | exact hc.elim
  unfold Orchestrator.completeOperation Orchestrator.currentOperation
  rw [bind_assoc]
  -- the operation is read in `s₁` and its intent in `s₂`
  refine .bind_invoke fun s₁ h₁ => ?_
  have hk₁ := (h₁ hk).1
  refine ⟨hread hk₁ trivial, (show Program.Meets exec (Moved rules) _ _ _ s₁ from ?_)⟩
  cases hop : s₁.getOperation id with
  | none => trivial
  | some op =>
    rw [pure_bind]
    refine .bind_invoke fun s₂ h₂ => ?_
    have hk₂ := (h₂ hk₁).1
    refine ⟨hread hk₂ trivial, (show Program.Meets exec (Moved rules) _ _ _ s₂ from ?_)⟩
    cases hi : s₂.getIntent id with
    | none => trivial
    | some i =>
      dsimp only
      split_ifs with hstatus
      · trivial
      · cases hadvance : op.validateAdvance phase with
        | error e => trivial
        | ok advances =>
          refine .bind (Program.Meets.pure (a := advances) ?_)
          dsimp only
          split_ifs
          · trivial
          · unfold Orchestrator.verifyLeavingSelected
            split_ifs with hphase
            · -- the inputs are compared with the intent as it is in `s₃`
              unfold Orchestrator.verifyPlannedInputs
              rw [bind_assoc]
              refine .bind_invoke fun s₃ h₃ => ?_
              have hk₃ := (h₃ hk₂).1
              refine ⟨hread hk₃ trivial, (show Program.Meets exec (Moved rules) _ _ _ s₃ from ?_)⟩
              cases hi₃ : s₃.getIntent id with
              | none => trivial
              | some planned =>
                dsimp only
                split_ifs with hset
                · rw [pure_bind]
                  refine Program.Meets.invoke fun s₄ h₄ => ?_
                  refine ⟨mayCall_completeOperation (h₄ hk₃).1 (.inr ?_), trivial⟩
                  obtain ⟨i₄, hi₄, hsel, -⟩ := (h₄ hk₃).2.intent_forward hi₃
                  obtain ⟨i₄', hi₄', -, hmoves⟩ := ((h₃.trans h₄) hk₂).2.intent_forward hi
                  have hsame : i₄' = i₄ := Option.some.inj (hi₄'.symm.trans hi₄)
                  rw [not_not.mp hstatus] at hmoves
                  exact ⟨i₄, hi₄, hsame ▸ hmoves.of_committed, by rw [hsel, hset]⟩
                · trivial
            · rw [pure_bind]
              refine Program.Meets.invoke fun s₄ h₄ => ?_
              refine ⟨mayCall_completeOperation (h₄ hk₂).1 (.inl ?_), trivial⟩
              obtain ⟨op₄, hop₄, hmoves⟩ := ((h₂.trans h₄) hk₁).2.operation_forward hop
              exact ⟨op₄, hop₄, hmoves.ne_selected hphase⟩

end InMemoryStateStore

namespace Orchestrator

/-- No method but `complete_operation` advances an operation. -/
theorem Method.program_neverAdvances (owner : String) {m : Method}
    (hm : ∀ id phase actual, m ≠ .completeOperation id phase actual) :
    (m.program owner).OnlyCalls fun c => ¬ c.IsAdvance := by
  have hreads : ∀ {α : Type} {p : Client α}, OnlyReads p → p.OnlyCalls fun c => ¬ c.IsAdvance :=
    fun h => h.mono fun c hc ha => by cases c <;> first | exact ha.elim | exact hc.elim
  have hcommits : ∀ {α : Type} {p : Client α}, OnlyCommits (fun _ => True) p →
      p.OnlyCalls fun c => ¬ c.IsAdvance :=
    fun h => h.mono fun c hc ha => by cases c <;> first | exact ha.elim | exact hc.elim
  have hdrop : ∀ {α : Type} {p : Client α}, (p.OnlyCalls fun c => ¬ c.IsAdvance) →
      (do let _ ← p : Client Unit).OnlyCalls fun c => ¬ c.IsAdvance :=
    fun h => .bind h fun _ => .pure _
  cases m with
  | addAccount | addScope | addUtxo | advanceTick => exact .invoke id
  | reconcileSnapshot snapshot =>
    exact hdrop (.bind (hreads (plan_onlyReads snapshot)) fun _ =>
      .bind (.invoke id) fun _ => .pure _)
  | proposeOperation request => exact hdrop (hreads (proposeOperation_onlyReads request))
  | preparePendingOperation request =>
    exact hdrop (hcommits (preparePendingOperation_onlyCommits trivial))
  | prepareOperation request =>
    exact hdrop (hcommits (prepareOperation_onlyCommits owner trivial))
  | applySelection selection => exact hcommits (applySelection_onlyCommits owner trivial)
  | persistSelectionIntent selection => exact hdrop (.invoke id)
  | commitRecordedIntent id =>
    exact hcommits (OnlyMarks.commits (commitRecordedIntent_onlyMarks owner trivial))
  | failRecordedIntent id => exact hcommits (OnlyMarks.commits (failRecordedIntent_onlyMarks trivial))
  | recoverPendingIntents =>
    exact hdrop (hcommits (OnlyMarks.commits (recoverPendingIntents_onlyMarks owner)))
  | cleanupStaleReservations maxAge =>
    refine hdrop (.bind (.invoke id) fun now => .bind (.invoke id) fun operations => ?_)
    generalize (operations.filter (isStale now maxAge)).map (·.operationId) = ids
    generalize (⟨[], []⟩ : CleanupReport) = report
    induction ids generalizing report with
    | nil => exact .pure _
    | cons id' ids ih =>
      unfold releaseStale
      refine .bind (.invoke id) fun released => ?_
      cases released with
      | none => exact ih _
      | some released => exact ih _
  | releaseSelectedOperation id' => exact hdrop (.invoke id)
  | releaseOperation id' =>
    refine hdrop (.bind (hreads (currentOperation_onlyReads id')) fun operation => ?_)
    split_ifs
    · exact .pure _
    · exact .invoke id
  | verifyPlannedInputs id' outpoints => exact hreads (verifyPlannedInputs_onlyReads id' outpoints)
  | completeOperation id' phase actual => exact (hm id' phase actual rfl).elim

end Orchestrator

namespace InMemoryStateStore

/-- The clients of an orchestrator, under the method they call. -/
def IsMethod (m : Orchestrator.Method) (p : Client Unit) : Prop := ∃ owner, p = m.program owner

/-- A store and the orchestrator clients in flight on it. -/
abbrev Clients := InMemoryStateStore × List (Program.Participant Orchestrator.Method StoreCall
  StoreCall.Out DomainError InMemoryStateStore)

/-- Any number of orchestrator clients on one store, in any interleaving and stopped anywhere; the
tables may be iterated over in another order at any time. -/
abbrev MethodRun : Clients → Clients → Prop :=
  Relation.ReflTransGen (Program.Together exec IsMethod SameContents)

/-- Every method makes only calls it may make, whatever other clients do. -/
theorem meets_isMethod (hrules : ∀ l, (∀ u, rules.puts l u) ∧ ∀ plan, rules.plans l plan)
    (hk : s.WellKeyed) {m : Orchestrator.Method} {p : Client Unit} (hp : IsMethod m p) :
    p.Meets exec (Moved rules) (fun s c => s.WellKeyed → MayCall rules m s c)
      (fun _ _ => True) s := by
  obtain ⟨owner, rfl⟩ := hp
  by_cases hm : ∃ id phase actual, m = .completeOperation id phase actual
  · obtain ⟨id, phase, actual, rfl⟩ := hm
    have hmeets : (Orchestrator.completeOperation id phase actual).Meets exec (Moved rules)
        (fun s c => s.WellKeyed → MayCall rules (.completeOperation id phase actual) s c)
        (fun _ _ => True) s :=
      (meets_completeOperation hk id phase actual).mono (fun _ _ h => h)
        fun s c h (_ : s.WellKeyed) => h
    refine .bind (hmeets.conseq fun r s' _ => ?_)
    cases r <;> trivial
  · have hnever := Orchestrator.Method.program_neverAdvances owner (m := m)
      fun id phase actual h => hm ⟨id, phase, actual, h⟩
    have hkeeps : Keeps rules [] (m.program owner) :=
      keeps_method (fun l => (hrules l).2) owner m fun u _ l => (hrules l).1 u
    have hmeets := (hkeeps s ⟨hk, fun _ h => (List.not_mem_nil h).elim⟩).and_onlyCalls hnever
    exact (hmeets.mono (fun _ _ h => h.interferes)
      fun _ _ h hk => mayCall_of_not_isAdvance hk h.1 h.2).conseq fun _ _ _ => trivial

/-- No rule restricts what an orchestrator client may put in or reconcile. -/
def openRules : Ledger.Rules := putRules fun _ => True

variable {x y : Clients}

/-- Whatever the clients in flight do next, they may. -/
theorem mayCall_together (h : MethodRun (empty, []) x) :
    x.1.WellKeyed ∧ ∀ q ∈ x.2, q.rest.Meets (Program.recording exec)
      (Program.Apart (Moved openRules))
      (fun z c => z.1.WellKeyed → MayCall openRules q.label z.1 c) (fun _ _ => True)
      (x.1, q.history) := by
  refine Program.meets_together (Moved openRules) WellKeyed
    (fun m z c => z.1.WellKeyed → MayCall openRules m z.1 c) Moved.refl
    (fun _ _ _ => Moved.trans) ?_ ?_ ?_ h .empty fun q hq => (List.not_mem_nil hq).elim
  · exact fun m s hist c hk hc => ⟨.exec (hc hk).1, hk.exec c⟩
  · exact fun s s' hk he => ⟨.env he, hk.sameContents he⟩
  · intro m p hp s hk
    exact (meets_isMethod (fun _ => ⟨fun _ => trivial, fun _ => trivial⟩) hk hp).recording []

/-- Only verified inputs leave `Selected`: whenever the stored phase of an operation changes from
`Selected` to a forward phase, this is the call of a `complete_operation` that was given exactly
the inputs of the recorded intent, which is committed at that moment. -/
theorem leaves_selected_verified (h : MethodRun (empty, []) x)
    (hstep : Program.Together exec IsMethod SameContents x y)
    {id : OperationId} {op op' : PersistedOperation} (hop : x.1.getOperation id = some op)
    (hphase : op.phase = .selected) (hop' : y.1.getOperation id = some op')
    (hforward : op'.phase.IsForward) :
    ∃ actual i hist, Program.Executes exec (.completeOperation id op'.phase actual) hist
        (.completeOperation id op'.phase) x y ∧
      x.1.getIntent id = some i ∧ i.status = .committed ∧
        actual.toFinset = i.selection.selectedOutpoints.toFinset := by
  have hsame : y.1.getOperation id ≠ x.1.getOperation id := by
    intro heq
    rw [hop', hop] at heq
    cases heq
    exact hforward.1 hphase
  rcases hstep.cases_state with ⟨m, hist, c, hexec⟩ | hstate | henv
  · obtain ⟨hk, hall⟩ := mayCall_together h
    have hstate := hexec.state
    obtain ⟨hadm, hverified⟩ := Program.admitted_together
      (fun m z c => z.1.WellKeyed → MayCall openRules m z.1 c) Moved.refl hexec hall hk
    rw [hstate] at hop'
    have hleaves : x.1.Leaves c id := ⟨⟨op, hop, hphase⟩, op', hop', hforward⟩
    obtain ⟨phase, rfl, hwritten⟩ := hleaves.call hk hadm
    obtain ⟨phase', actual, i, rfl, heq, hi, hcommitted, hactual⟩ := hverified id hleaves
    cases heq
    obtain rfl := hwritten op' hop'
    exact ⟨actual, i, hist, hexec, hi, hcommitted, hactual⟩
  · exact (hsame (by rw [hstate])).elim
  · exact (hsame (henv.operations id).symm).elim

namespace Sample

/-- A payment is prepared and then completed, with the input that was planned. -/
def payment : List Orchestrator.Method :=
  [.addAccount ⟨accountId, "account", [], capabilities⟩,
    .addScope ⟨scopeId, accountId, "descriptor", "derivation", capabilities, 0⟩,
    .addUtxo (.new outpoint accountId scopeId 1000), .applySelection selection,
    .completeOperation operationId .broadcast [outpoint]]

/-- The clients of the payment, started together. -/
def payers : Clients :=
  (empty, (payment.map fun m => (m, m.program "owner")).map fun m => ⟨m.1, [], m.2⟩)

/-- The last client is about to advance the operation. -/
def verified : Clients :=
  Program.play exec [(0, 1), (1, 1), (2, 1), (3, 20), (4, 3)] payers

theorem verified_run : MethodRun (empty, []) verified := by
  refine Relation.ReflTransGen.trans (Program.together_starts _ (fun m hm => ?_) empty)
    (Program.together_play _ _)
  obtain ⟨m, -, rfl⟩ := List.mem_map.mp hm
  exact ⟨"owner", rfl⟩

end Sample

theorem leaves_selected_verified_sample :
    ∃ (x y : Clients) (actual : List OutPoint) (i : OperationIntent)
        (hist : Program.History InMemoryStateStore StoreCall),
      Program.Executes exec (.completeOperation Sample.operationId .broadcast actual) hist
        (.completeOperation Sample.operationId .broadcast) x y ∧
      x.1.getIntent Sample.operationId = some i ∧ i.status = .committed ∧
        actual.toFinset = i.selection.selectedOutpoints.toFinset := by
  have hop : ∃ op, Sample.verified.1.getOperation Sample.operationId = some op ∧
      op.phase = .selected := ⟨_, rfl, by decide⟩
  have hop' : ∃ op', (Program.turn exec 4 1 Sample.verified).1.getOperation Sample.operationId =
      some op' ∧ op'.phase = .broadcast := ⟨_, rfl, by decide⟩
  obtain ⟨op, hop, hphase⟩ := hop
  obtain ⟨op', hop', hphase'⟩ := hop'
  have hstep : Program.Together exec IsMethod SameContents Sample.verified
      (Program.turn exec 4 1 Sample.verified) :=
    (Program.together_next (i := 4) rfl).1
  obtain ⟨actual, i, hist, hexec, hi, hcommitted, hactual⟩ :=
    leaves_selected_verified Sample.verified_run hstep hop hphase hop'
      (by rw [hphase']; exact ⟨by decide, by decide⟩)
  rw [hphase'] at hexec
  exact ⟨_, _, actual, i, hist, hexec, hi, hcommitted, hactual⟩

end InMemoryStateStore

end Txoscope
