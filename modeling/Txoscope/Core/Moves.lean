import Txoscope.Core.Ledger

/-!
# What one call can do to a ledger

`Admits` says when a batch is accepted. `Move` lists everything an admitted call can do to the
cells, operations and intents, with what is known when it does; `exec_move` is the inversion of
`Ledger.exec` every invariant is derived from. `Rules` says which outputs and which reconciliation
plans a run may bring into the store.
-/

namespace Txoscope

/-! ## Cells -/

theorem alreadyApplied_iff {id : OperationId} {phase : OperationPhase} {u : ManagedUtxo}
    {lock : Option OperationLock} :
    alreadyApplied id phase u lock = true ↔
      u.operationBinding = some ⟨id, phase⟩ ∧ ∃ k, lock = some k ∧ k.operationId = id := by
  unfold alreadyApplied
  rw [Bool.and_eq_true]
  refine and_congr ?_ ?_
  · cases u.operationBinding with
    | none => simp
    | some b =>
      obtain ⟨i, p⟩ := b
      simp
  · cases lock with
    | none => simp
    | some k => simp

namespace Cell

/-- The two ways a batch can hold an output: it is free, or it is held by the batch already. -/
inductive Holdable (batch : StateBatch) (purpose : LockPurpose) (c : Cell) : Prop where
  | free (u : ManagedUtxo) (utxo : c.utxo = some u) (spendable : u.isPolicySpendable = true)
      (lock : c.lock = none)
  | held (u : ManagedUtxo) (k : OperationLock) (utxo : c.utxo = some u)
      (binding : u.operationBinding = some ⟨batch.selection.operationId, batch.phase⟩)
      (lock : c.lock = some k) (owner : k.operationId = batch.selection.operationId)
      (same : lockDiffers batch u purpose k = false)

theorem checkHold_eq_ok_iff {batch : StateBatch} {effect : SelectionEffect} {c : Cell} :
    c.checkHold batch effect = .ok () ↔ c.Holdable batch effect.purpose := by
  unfold checkHold
  cases hu : c.utxo with
  | none =>
    refine ⟨fun h => (nomatch h), fun h => ?_⟩
    cases h with
    | free u utxo => rw [hu] at utxo; cases utxo
    | held u k utxo => rw [hu] at utxo; cases utxo
  | some u =>
    simp only
    split_ifs with happ hdiff hfree
    · refine ⟨fun h => (nomatch h), fun h => ?_⟩
      obtain ⟨hbind, k, hk, -⟩ := alreadyApplied_iff.mp happ
      cases h with
      | free u' utxo spendable =>
        rw [hu] at utxo
        cases utxo
        rw [(ManagedUtxo.isPolicySpendable_iff.mp spendable).2.2.1] at hbind
        cases hbind
      | held u' k' utxo _ lock _ same =>
        rw [hu] at utxo
        cases utxo
        rw [lock, Option.any_some, same] at hdiff
        cases hdiff
    · obtain ⟨hbind, k, hk, howner⟩ := alreadyApplied_iff.mp happ
      rw [hk, Option.any_some, Bool.not_eq_true] at hdiff
      exact ⟨fun _ => .held u k hu hbind hk howner hdiff, fun _ => rfl⟩
    · obtain ⟨hspend, hlock⟩ := ManagedUtxo.canBeLocked_iff.mp hfree
      rw [Option.isSome_eq_false_iff, Option.isNone_iff_eq_none] at hlock
      exact ⟨fun _ => .free u hu hspend hlock, fun _ => rfl⟩
    · refine ⟨fun h => (nomatch h), fun h => ?_⟩
      cases h with
      | free u' utxo spendable lock =>
        rw [hu] at utxo
        cases utxo
        exact (hfree (ManagedUtxo.canBeLocked_iff.mpr ⟨spendable, by rw [lock]; rfl⟩)).elim
      | held u' k utxo binding lock owner =>
        rw [hu] at utxo
        cases utxo
        exact (happ (alreadyApplied_iff.mpr ⟨binding, k, lock, owner⟩)).elim

/-- A free output is reserved and locked. -/
theorem hold_of_free {batch : StateBatch} {tick : ℕ} {purpose : LockPurpose} {c : Cell}
    {u : ManagedUtxo} (hu : c.utxo = some u) (hs : u.isPolicySpendable = true) :
    c.hold batch tick purpose =
      ⟨some (u.reserve batch.selection.operationId batch.phase),
        some (newLock batch tick u purpose)⟩ := by
  unfold hold
  rw [hu]
  have hnone := (ManagedUtxo.isPolicySpendable_iff.mp hs).2.2.1
  refine if_neg fun happ => ?_
  rw [(alreadyApplied_iff.mp happ).1] at hnone
  cases hnone

/-- An output held by the batch stays as it is. -/
theorem hold_of_held {batch : StateBatch} {tick : ℕ} {purpose : LockPurpose} {c : Cell}
    {u : ManagedUtxo} {k : OperationLock} (hu : c.utxo = some u)
    (hb : u.operationBinding = some ⟨batch.selection.operationId, batch.phase⟩)
    (hk : c.lock = some k) (ho : k.operationId = batch.selection.operationId) :
    c.hold batch tick purpose = c := by
  unfold hold
  rw [hu]
  exact if_pos (alreadyApplied_iff.mpr ⟨hb, k, hk, ho⟩)

end Cell

/-! ## Accepted batches -/

namespace Ledger

/-- A batch every check of which passes. -/
structure Admits (l : Ledger) (batch : StateBatch) : Prop where
  intent : ∀ i, l.intent batch.selection.operationId = some i →
    i.status ≠ .failed ∧ i.selection = batch.selection
  operation : ∀ op, l.operation batch.selection.operationId = some op →
    op.phase = batch.phase ∧ op.phase ≠ .rollingBack
  authorised : batch.selection.Authorised l.account l.scope l.utxo
  holdable : ∀ e ∈ batch.selection.effects, (l.cell e.outpoint).Holdable batch e.purpose

/-- The check of a batch against the recorded operation. -/
theorem checkPhase_eq_ok_iff {batch : StateBatch} (recorded : Option PersistedOperation) :
    (match recorded with
      | some operation =>
        if operation.phase ≠ batch.phase ∨ operation.phase = .rollingBack then
          throw (.invalidOperationTransition batch.selection.operationId operation.phase
            batch.phase)
        else pure ()
      | none => pure () : DomainResult Unit) = .ok () ↔
      ∀ op, recorded = some op → op.phase = batch.phase ∧ op.phase ≠ .rollingBack := by
  cases recorded with
  | none => exact ⟨fun _ _ h => (by cases h), fun _ => rfl⟩
  | some op =>
    simp only [Option.some.injEq, forall_eq']
    split_ifs with h
    · exact ⟨fun h => (by cases h), fun h' => (h.elim (fun h => h h'.1) h'.2).elim⟩
    · exact ⟨fun _ => by tauto, fun _ => rfl⟩

theorem checkBatch_eq_ok_iff {l : Ledger} {batch : StateBatch} :
    l.checkBatch batch = .ok () ↔
      (∀ i, l.intent batch.selection.operationId = some i →
        i.status ≠ .failed ∧ i.selection = batch.selection) ∧
      ∀ op, l.operation batch.selection.operationId = some op →
        op.phase = batch.phase ∧ op.phase ≠ .rollingBack := by
  unfold checkBatch
  cases l.intent batch.selection.operationId with
  | none =>
    refine Iff.trans (checkPhase_eq_ok_iff _) ⟨fun h => ⟨fun _ h => (by cases h), h⟩, fun h => h.2⟩
  | some i =>
    simp only [Option.some.injEq, forall_eq']
    by_cases hf : i.status = .failed
    · simp only [hf, if_true]
      exact ⟨fun h => (by cases h), fun h => (h.1.1 rfl).elim⟩
    · by_cases hs : i.selection = batch.selection
      · simp only [hf, hs, if_false, ne_eq, not_true_eq_false, not_false_eq_true, and_self,
          true_and]
        exact checkPhase_eq_ok_iff _
      · simp only [hf, if_false, ne_eq, hs, not_false_eq_true, if_true, and_false, false_and,
          iff_false]
        intro h
        cases h

theorem validateBatch_eq_ok_iff {l : Ledger} {batch : StateBatch} :
    l.validateBatch batch = .ok () ↔ l.Admits batch := by
  unfold validateBatch
  simp only [bind, Except.bind]
  cases hc : l.checkBatch batch with
  | error e =>
    refine ⟨fun h => (nomatch h), fun h => ?_⟩
    rw [checkBatch_eq_ok_iff.mpr ⟨h.intent, h.operation⟩] at hc
    cases hc
  | ok u =>
    obtain ⟨hintent, hoperation⟩ := checkBatch_eq_ok_iff.mp hc
    cases hv : OperationSelection.validateCapabilities (m := DomainResult) batch.selection
        (fun id => .ok (l.account id)) (fun id => .ok (l.scope id)) (fun o => .ok (l.utxo o)) with
    | error e =>
      refine ⟨fun h => (nomatch h), fun h => ?_⟩
      rw [OperationSelection.validateCapabilities_eq_ok_iff.mpr h.authorised] at hv
      cases hv
    | ok v =>
      have hauth := OperationSelection.validateCapabilities_eq_ok_iff.mp hv
      refine Iff.trans Pointwise.forM_eq_ok_iff ?_
      simp only [Cell.checkHold_eq_ok_iff]
      exact ⟨fun h => ⟨hintent, hoperation, hauth, h⟩, fun h => h.holdable⟩

/-- The cells of a valid batch: an output of the batch is held, any other stays. -/
theorem holdCells_cases (l : Ledger) (batch : StateBatch) (o : OutPoint) :
    (∃ e ∈ batch.selection.effects, e.outpoint = o ∧
      l.holdCells batch o = (l.cell o).hold batch l.tick e.purpose) ∨
    ((∀ e ∈ batch.selection.effects, e.outpoint ≠ o) ∧ l.holdCells batch o = l.cell o) :=
  Pointwise.updateEach_cases _ _ _ _ _

/-! ## Moves -/

/-- Which outputs and which plans a run may bring into the store. -/
structure Rules where
  puts : Ledger → ManagedUtxo → Prop
  plans : Ledger → ReconcilePlan → Prop

/-- An output may be put in only as `ManagedUtxo::new` of an outpoint not managed yet. -/
def putsNew (l : Ledger) (u : ManagedUtxo) : Prop :=
  l.utxo u.outpoint = none ∧ u = ManagedUtxo.new u.outpoint u.accountId u.scopeId u.valueSats

/-- The calls a run may make: a batch in phase `Selected` whose intent was recorded, a release
into `RollingBack`, and whatever the rules let in. -/
def Admissible (rules : Rules) (l : Ledger) : StoreCall → Prop
  | .putUtxo u => rules.puts l u
  | .applyBatch batch =>
    batch.phase = .selected ∧ (l.intent batch.selection.operationId).isSome = true
  | .applyReconciliation plan => rules.plans l plan
  | .releaseOperation _ phase => phase = .rollingBack
  | _ => True

/-- Everything an admissible call can do to the cells, the operations and the intents. -/
inductive Move (rules : Rules) (l l' : Ledger) : Prop where
  | quiet (cell : l'.cell = l.cell) (operation : l'.operation = l.operation)
      (intent : l'.intent = l.intent)
  | put (u : ManagedUtxo) (puts : rules.puts l u)
      (cell : l'.cell = Function.update l.cell u.outpoint { l.cell u.outpoint with utxo := some u })
      (operation : l'.operation = l.operation) (intent : l'.intent = l.intent)
  | record (selection : OperationSelection) (tick : ℕ)
      (fresh : l.intent selection.operationId = none) (cell : l'.cell = l.cell)
      (operation : l'.operation = l.operation)
      (intent : l'.intent =
        Function.update l.intent selection.operationId (some ⟨selection, .pending, tick⟩))
  | commit (id : OperationId) (i : OperationIntent) (recorded : l.intent id = some i)
      (notFailed : i.status ≠ .failed) (cell : l'.cell = l.cell)
      (operation : l'.operation = l.operation)
      (intent : l'.intent = Function.update l.intent id (some { i with status := .committed }))
  | fail (id : OperationId) (i : OperationIntent) (recorded : l.intent id = some i)
      (pending : i.status = .pending)
      (idle : ∀ op, l.operation id = some op → op.phase = .rollingBack) (cell : l'.cell = l.cell)
      (operation : l'.operation = l.operation)
      (intent : l'.intent = Function.update l.intent id (some { i with status := .failed }))
  | failSelected (id : OperationId) (i : OperationIntent) (op op' : PersistedOperation)
      (recorded : l.intent id = some i) (pending : i.status = .pending)
      (selected : l.operation id = some op) (phase : op.phase = .selected)
      (cell : l'.cell = fun o => (l.cell o).release id) (phase' : op'.phase = .rollingBack)
      (operation : l'.operation = Function.update l.operation id (some op'))
      (intent : l'.intent = Function.update l.intent id (some { i with status := .failed }))
  | hold (batch : StateBatch) (i : OperationIntent) (op' : PersistedOperation)
      (recorded : l.intent batch.selection.operationId = some i) (admits : l.Admits batch)
      (selected : batch.phase = .selected) (cell : l'.cell = l.holdCells batch)
      (phase' : op'.phase = .selected)
      (operation : l'.operation =
        Function.update l.operation batch.selection.operationId (some op'))
      (intent : l'.intent = l.intent)
  | reconcile (plan : ReconcilePlan) (plans : rules.plans l plan)
      (cell : l'.cell = fun o => (plan.actionsOn o).foldl Cell.act (l.cell o))
      (operation : l'.operation = l.operation) (intent : l'.intent = l.intent)
  | release (id : OperationId) (op' : PersistedOperation)
      (cell : l'.cell = fun o => (l.cell o).release id) (phase' : op'.phase = .rollingBack)
      (operation : l'.operation = Function.update l.operation id (some op'))
      (intent : l'.intent = l.intent)
  | advance (id : OperationId) (phase : OperationPhase) (op op' : PersistedOperation)
      (i : OperationIntent) (running : l.operation id = some op) (recorded : l.intent id = some i)
      (committed : i.status = .committed) (forward : op.phase.canAdvance phase = true)
      (cell : l'.cell = fun o => (l.cell o).advance id phase) (phase' : op'.phase = phase)
      (operation : l'.operation = Function.update l.operation id (some op'))
      (intent : l'.intent = l.intent)

variable {rules : Rules} {l : Ledger}

theorem Move.refl : Move rules l l := .quiet rfl rfl rfl

theorem persistIntent_move (selection : OperationSelection) :
    Move rules l (l.persistIntent selection).2 := by
  unfold persistIntent
  cases h : l.intent selection.operationId with
  | none => exact .record selection _ h rfl rfl rfl
  | some existing =>
    simp only
    split_ifs <;> exact .refl

theorem markIntentCommitted_move (id : OperationId) :
    Move rules l (l.markIntentCommitted id).2 := by
  unfold markIntentCommitted
  cases h : l.intent id with
  | none => exact .refl
  | some i =>
    simp only
    split_ifs with hf
    · exact .refl
    · exact .commit id i h hf rfl rfl rfl

theorem releaseOperation_move (id : OperationId) :
    Move rules l (l.releaseOperation id .rollingBack) :=
  .release id _ rfl rfl rfl rfl

theorem markIntentFailed_move (id : OperationId) : Move rules l (l.markIntentFailed id).2 := by
  unfold markIntentFailed
  cases h : l.intent id with
  | none => exact .refl
  | some i =>
    cases hst : i.status with
    | committed => simpa only [hst] using Move.refl
    | failed => simpa only [hst] using Move.refl
    | pending =>
      cases hop : l.operation id with
      | none =>
        simp only [hst]
        exact .fail id i h hst (fun op h' => by rw [hop] at h'; cases h') rfl rfl rfl
      | some op =>
        cases hp : op.phase with
        | selected =>
          simp only [hst, hp]
          exact .failSelected id i op _ h hst hop hp rfl rfl rfl rfl
        | rollingBack =>
          simp only [hst, hp]
          exact .fail id i h hst (fun op' h' => by rw [hop] at h'; cases h'; exact hp) rfl rfl rfl
        | constructing | signed | broadcast | awaitingConfirmation | awaitingL2Finality =>
          simpa only [hst, hp] using Move.refl

theorem applyBatch_move {batch : StateBatch} (hp : batch.phase = .selected)
    (hi : (l.intent batch.selection.operationId).isSome = true) :
    Move rules l (l.applyBatch batch).2 := by
  unfold applyBatch
  cases hv : l.validateBatch batch with
  | error e => exact .refl
  | ok u =>
    obtain ⟨i, hi⟩ := Option.isSome_iff_exists.mp hi
    exact .hold batch i _ hi (validateBatch_eq_ok_iff.mp hv) hp rfl hp rfl rfl

theorem completeOperation_move (id : OperationId) (phase : OperationPhase) :
    Move rules l (l.completeOperation id phase).2 := by
  unfold completeOperation
  cases hop : l.operation id with
  | none => exact .refl
  | some op =>
    cases hi : l.intent id with
    | none => exact .refl
    | some i =>
      simp only
      split_ifs with hst
      · exact .refl
      · cases hadv : op.validateAdvance phase with
        | error e => exact .refl
        | ok advances =>
          cases advances with
          | false => exact .refl
          | true =>
            exact .advance id phase op _ i hop hi (not_not.mp hst)
              (PersistedOperation.validateAdvance_eq_ok_true_iff.mp hadv) rfl rfl rfl rfl

/-- The inversion of one admissible call. -/
theorem exec_move {c : StoreCall} (h : l.Admissible rules c) : Move rules l (exec c l).2 := by
  cases c with
  | getAccount | getScope | getUtxo | getLock | getOperation | getIntent | listUtxos
    | listOperations | listPendingIntents | currentTick => exact .refl
  | putAccount | advanceTick => exact .quiet rfl rfl rfl
  | putScope scope =>
    change Move rules l (l.putScope scope).2
    unfold putScope
    cases l.account scope.accountId with
    | none => exact .refl
    | some account => exact .quiet rfl rfl rfl
  | putUtxo u => exact .put u h rfl rfl rfl
  | persistIntent selection => exact persistIntent_move selection
  | markIntentCommitted id => exact markIntentCommitted_move id
  | markIntentFailed id => exact markIntentFailed_move id
  | applyBatch batch => exact applyBatch_move h.1 h.2
  | applyReconciliation plan => exact .reconcile plan h rfl rfl rfl
  | releaseSelectedOperation id =>
    change Move rules l (l.releaseSelectedOperation id).2
    unfold releaseSelectedOperation
    split_ifs
    · exact .refl
    · exact releaseOperation_move id
  | releaseOperation id phase =>
    obtain rfl : phase = .rollingBack := h
    exact releaseOperation_move id
  | completeOperation id phase => exact completeOperation_move id phase

end Ledger

end Txoscope
