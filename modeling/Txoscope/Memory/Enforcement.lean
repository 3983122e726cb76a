import Txoscope.Core.Moves
import Txoscope.Memory.Refinement

/-!
# What an accepted batch may do

`apply_batch` believes nothing a batch says about itself. When it returns `Ok`, the selection is
well formed, every input and the change are granted what their purposes require by the accounts and
scopes on record, every output was free or held by this very batch, and nothing but these outputs,
their locks and the record of the operation has changed. When it fails, nothing has changed.
-/

namespace Txoscope

namespace InMemoryStateStore

variable {s : InMemoryStateStore}

/-! ## Outputs and locks a batch leaves alone -/

/-- One effect writes under the key of its outpoint only. -/
theorem applyEffect_frame {batch : StateBatch} {tick : ℕ} {effect : SelectionEffect}
    {st st' : Dict String ManagedUtxo × Dict String OperationLock}
    (h : applyEffect batch tick effect st = .ok st') {key : String}
    (hkey : effect.outpoint.display ≠ key) :
    st'.1.get key = st.1.get key ∧ st'.2.get key = st.2.get key := by
  obtain ⟨utxos, locks⟩ := st
  unfold applyEffect at h
  simp only [bind, Except.bind] at h
  split at h
  · cases h
  · split at h
    · cases h
    · split_ifs at h
      · cases h
        exact ⟨rfl, rfl⟩
      · cases h
        exact ⟨Dict.get_set_ne _ _ (Ne.symm hkey), Dict.get_set_ne _ _ (Ne.symm hkey)⟩

theorem applyEffects_frame {batch : StateBatch} {tick : ℕ} {effects : List SelectionEffect}
    {st st' : Dict String ManagedUtxo × Dict String OperationLock}
    (h : applyEffects batch tick effects st = .ok st') {key : String}
    (hkey : ∀ e ∈ effects, e.outpoint.display ≠ key) :
    st'.1.get key = st.1.get key ∧ st'.2.get key = st.2.get key := by
  induction effects generalizing st with
  | nil =>
    cases h
    exact ⟨rfl, rfl⟩
  | cons effect effects ih =>
    rw [List.forall_mem_cons] at hkey
    unfold applyEffects at h
    cases happly : applyEffect batch tick effect st with
    | error e =>
      rw [happly] at h
      cases h
    | ok st₁ =>
      rw [happly] at h
      obtain ⟨hutxos, hlocks⟩ := ih h hkey.2
      obtain ⟨hutxos₁, hlocks₁⟩ := applyEffect_frame happly hkey.1
      exact ⟨hutxos.trans hutxos₁, hlocks.trans hlocks₁⟩

/-! ## What is enforced -/

/-- The effect may take its output: it is lockable, or this batch holds it already, with a lock
for the same purpose and expiry. -/
def MayTake (s : InMemoryStateStore) (batch : StateBatch) (effect : SelectionEffect) : Prop :=
  ∃ u, s.getUtxo effect.outpoint = some u ∧
    (u.canBeLocked (s.getLock effect.outpoint).isSome = true ∨
      u.operationBinding = some ⟨batch.selection.operationId, batch.phase⟩ ∧
        ∃ k, s.getLock effect.outpoint = some k ∧ k.operationId = batch.selection.operationId ∧
          k.purpose = effect.purpose ∧ k.expiresAt = batch.selection.expiresAt)

/-- The output of the effect is bound to and locked by the operation of the batch. -/
def Taken (s : InMemoryStateStore) (batch : StateBatch) (effect : SelectionEffect) : Prop :=
  ∃ u k, s.getUtxo effect.outpoint = some u ∧
    u.operationBinding = some ⟨batch.selection.operationId, batch.phase⟩ ∧
    s.getLock effect.outpoint = some k ∧ k.operationId = batch.selection.operationId ∧
    k.purpose = effect.purpose ∧ k.expiresAt = batch.selection.expiresAt

/-- What holds of an accepted batch in the state `s` it was applied in and the state `s'` after. -/
structure Enforced (s : InMemoryStateStore) (batch : StateBatch) (s' : InMemoryStateStore) :
    Prop where
  wellFormed : batch.selection.WellFormed
  inputs : ∀ e ∈ batch.selection.effects, ∃ u, s.getUtxo e.outpoint = some u ∧
    OperationSelection.Grants s.getAccount s.getScope u.accountId u.scopeId
      e.purpose.requiredCapabilities
  change : ∃ scope, s.getScope batch.selection.changeScopeId = some scope ∧
    (s.WellKeyed → scope.id = batch.selection.changeScopeId) ∧
    OperationSelection.Grants s.getAccount s.getScope scope.accountId scope.id
      batch.selection.changeCapabilities
  before : ∀ e ∈ batch.selection.effects, s.MayTake batch e
  after : ∀ e ∈ batch.selection.effects, s'.Taken batch e
  otherUtxos : ∀ key, (∀ e ∈ batch.selection.effects, e.outpoint.display ≠ key) →
    s'.utxos.get key = s.utxos.get key ∧ s'.locks.get key = s.locks.get key
  otherOperations : ∀ id ≠ batch.selection.operationId, s'.getOperation id = s.getOperation id
  operation : ∃ op, s'.getOperation batch.selection.operationId = some op ∧ op.phase = batch.phase ∧
    op.expiresAt = batch.selection.expiresAt
  accounts : s'.accounts = s.accounts
  scopes : s'.scopes = s.scopes
  intents : s'.intents = s.intents

/-- What may be held may be taken. -/
theorem mayTake_of_holdable {batch : StateBatch} {effect : SelectionEffect}
    (h : (s.cell effect.outpoint).Holdable batch effect.purpose) : s.MayTake batch effect := by
  cases h with
  | free u utxo spendable lock =>
    refine ⟨u, utxo, .inl (ManagedUtxo.canBeLocked_iff.mpr ⟨spendable, ?_⟩)⟩
    rw [show s.getLock effect.outpoint = none from lock]
    rfl
  | held u k utxo binding lock owner same =>
    unfold lockDiffers at same
    simp only [decide_eq_false_iff_not, not_or, not_not] at same
    exact ⟨u, utxo, .inr ⟨binding, k, lock, owner, same.1, same.2.1⟩⟩

/-- What could be held has been taken. -/
theorem taken_of_hold {s' : InMemoryStateStore} {batch : StateBatch} {effect : SelectionEffect}
    {tick : ℕ} (h : (s.cell effect.outpoint).Holdable batch effect.purpose)
    (hcell : s'.cell effect.outpoint =
      (s.cell effect.outpoint).hold batch tick effect.purpose) : s'.Taken batch effect := by
  have hutxo : s'.getUtxo effect.outpoint = _ := congrArg Cell.utxo hcell
  have hlock : s'.getLock effect.outpoint = _ := congrArg Cell.lock hcell
  cases h with
  | free u utxo spendable lock =>
    rw [Cell.hold_of_free utxo spendable] at hutxo hlock
    exact ⟨_, _, hutxo, rfl, hlock, rfl, rfl, rfl⟩
  | held u k utxo binding lock owner same =>
    rw [Cell.hold_of_held utxo binding lock owner] at hutxo hlock
    unfold lockDiffers at same
    simp only [decide_eq_false_iff_not, not_or, not_not] at same
    exact ⟨u, k, hutxo.trans utxo, binding, hlock.trans lock, owner, same.1, same.2.1⟩

/-- A batch is planned only if it is admitted. -/
theorem admits_of_planBatch {batch : StateBatch}
    {next : Dict String ManagedUtxo × Dict String OperationLock}
    (h : s.planBatch batch = .ok next) :
    s.toLedger.Admits batch ∧ cellsOf next = s.toLedger.holdCells batch := by
  have hplan := planBatch_cellsOf s batch
  rw [h] at hplan
  cases hv : s.toLedger.validateBatch batch with
  | error e =>
    rw [hv] at hplan
    cases hplan
  | ok u =>
    rw [hv] at hplan
    exact ⟨Ledger.validateBatch_eq_ok_iff.mp hv, Except.ok.inj hplan⟩

/-- The last step of a plan is the writing of its effects. -/
theorem applyEffects_of_planBatch {batch : StateBatch}
    {next : Dict String ManagedUtxo × Dict String OperationLock}
    (h : s.planBatch batch = .ok next) :
    applyEffects batch s.tick batch.selection.effects (s.utxos, s.locks) = .ok next := by
  unfold planBatch at h
  cases hc : s.checkBatch batch with
  | error e =>
    rw [hc] at h
    cases h
  | ok u =>
    rw [hc] at h
    cases hv : batch.selection.validateCapabilities (m := DomainResult)
        (fun id => .ok (s.getAccount id)) (fun id => .ok (s.getScope id))
        (fun id => .ok (s.getUtxo id)) with
    | error e =>
      simp only [bind, Except.bind, hv] at h
      cases h
    | ok u =>
      simp only [bind, Except.bind, hv] at h
      exact h

/-- Capability enforcement cannot be bypassed, and a refused batch leaves the store as it was. -/
theorem applyBatch_enforced (s : InMemoryStateStore) (batch : StateBatch) :
    ((s.applyBatch batch).1 = .ok () → s.Enforced batch (s.applyBatch batch).2) ∧
      ∀ e, (s.applyBatch batch).1 = .error e → (s.applyBatch batch).2 = s := by
  unfold applyBatch
  cases h : s.planBatch batch with
  | error e => exact ⟨fun hok => (nomatch hok), fun _ _ => rfl⟩
  | ok next =>
    refine ⟨fun _ => ?_, fun _ herror => (nomatch herror)⟩
    obtain ⟨hadmits, hcells⟩ := admits_of_planBatch h
    have hwritten := applyEffects_of_planBatch h
    have hauth := hadmits.authorised
    obtain ⟨scope, hscope, hgrants⟩ := hauth.change
    refine
      { wellFormed := hauth.wellFormed
        inputs := hauth.effects
        change := ⟨scope, hscope, fun hk => hk.toLedger.scope _ _ hscope, hgrants⟩
        before := fun e he => mayTake_of_holdable (hadmits.holdable e he)
        after := fun e he => ?_
        otherUtxos := fun key hkey => applyEffects_frame hwritten hkey
        otherOperations := fun id hid => Dict.get_set_ne _ _ hid
        operation := ⟨_, Dict.get_set_self _ _ _, rfl, rfl⟩
        accounts := rfl
        scopes := rfl
        intents := rfl }
    have hcell : cellsOf next e.outpoint = s.toLedger.holdCells batch e.outpoint :=
      congrFun hcells _
    rcases s.toLedger.holdCells_cases batch e.outpoint with ⟨e', he', ho, heq⟩ | ⟨hnone, -⟩
    · -- distinct effects have distinct outpoints
      obtain rfl : e' = e :=
        List.inj_on_of_nodup_map hauth.wellFormed.effects_nodup he' he ho
      exact taken_of_hold (hadmits.holdable e' he') (hcell.trans heq)
    · exact (hnone e he rfl).elim

end InMemoryStateStore

end Txoscope
