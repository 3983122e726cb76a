import Txoscope.Core.Ledger
import Txoscope.Memory.Store

/-!
# The in-memory store refines the ledger

`toLedger` forgets the tables of an in-memory store. Every call on the store returns what the same
call on its ledger returns, listings compared as sets, and leaves the store of the resulting
ledger (`exec_refines`). The records stay under their own keys.
-/

namespace Txoscope

/-- A list without repetitions that enumerates a set. -/
def Enumerates {α : Type} (l : List α) (S : Set α) : Prop := l.Nodup ∧ ∀ a, a ∈ l ↔ a ∈ S

/-- The same answer, with listings as sets. -/
def StoreCall.Agree : (c : StoreCall) → c.Out → c.SetOut → Prop
  | listUtxos, l, S | listOperations, l, S | listPendingIntents, l, S => Enumerates l S
  | releaseOperation _ _, l, S | completeOperation _ _, l, S => Enumerates l S
  | releaseSelectedOperation _, some l, some S => Enumerates l S
  | releaseSelectedOperation _, none, none => True
  | releaseSelectedOperation _, _, _ => False
  | getAccount _, a, b | getScope _, a, b | getUtxo _, a, b | getLock _, a, b
  | getOperation _, a, b | getIntent _, a, b | currentTick, a, b | persistIntent _, a, b
  | putAccount _, a, b | putScope _, a, b | putUtxo _, a, b | advanceTick _, a, b
  | markIntentCommitted _, a, b | markIntentFailed _, a, b | applyBatch _, a, b
  | applyReconciliation _, a, b => a = b

/-- The same error, or answers related by `R`. -/
def ResultAgree {α β : Type} (R : α → β → Prop) : DomainResult α → DomainResult β → Prop
  | .ok a, .ok b => R a b
  | .error e, .error e' => e = e'
  | _, _ => False

theorem ResultAgree.of_eq {α : Type} {r r' : DomainResult α} (h : r = r') :
    ResultAgree Eq r r' := by
  subst h
  cases r <;> rfl

abbrev StoreCall.AgreeResult (c : StoreCall) :
    DomainResult c.Out → DomainResult c.SetOut → Prop := ResultAgree c.Agree

namespace InMemoryStateStore

/-- The records are kept under their own keys. -/
structure WellKeyed (s : InMemoryStateStore) : Prop where
  utxo : ∀ k u, s.utxos.get k = some u → u.outpoint.display = k
  account : ∀ id a, s.accounts.get id = some a → a.id = id
  scope : ∀ id sc, s.scopes.get id = some sc → sc.id = id
  operation : ∀ id op, s.operations.get id = some op → op.operationId = id
  intent : ∀ id i, s.intents.get id = some i → i.selection.operationId = id

/-- The output and the lock under an outpoint. -/
def cell (s : InMemoryStateStore) (o : OutPoint) : Cell := ⟨s.getUtxo o, s.getLock o⟩

/-- The ledger an in-memory store represents. -/
def toLedger (s : InMemoryStateStore) : Ledger where
  account := s.getAccount
  scope := s.getScope
  cell := s.cell
  operation := s.getOperation
  intent := s.getIntent
  tick := s.tick

theorem WellKeyed.toLedger {s : InMemoryStateStore} (h : s.WellKeyed) : s.toLedger.WellKeyed where
  utxo _ _ hu := OutPoint.display_injective (h.utxo _ _ hu)
  account := h.account
  scope := h.scope
  operation := h.operation
  intent := h.intent

/-! ## Tables -/

section Tables

variable {κ ν : Type} [DecidableEq κ]

theorem get_set_eq_update (d : Dict κ ν) (k : κ) (v : ν) :
    (d.set k v).get = Function.update d.get k (some v) := by
  funext k'
  rw [Dict.get_set, Function.update_apply]

theorem get_set_display (d : Dict String ν) (o o' : OutPoint) (v : ν) :
    (d.set o.display v).get o'.display = if o' = o then some v else d.get o'.display := by
  rw [Dict.get_set]
  simp only [OutPoint.display_inj]

theorem get_modify_display (d : Dict String ν) (o o' : OutPoint) (f : ν → ν) :
    (d.modify o.display f).get o'.display =
      if o' = o then (d.get o.display).map f else d.get o'.display := by
  rw [Dict.get_modify]
  simp only [OutPoint.display_inj]

theorem get_remove_display (d : Dict String ν) (o o' : OutPoint) :
    (d.remove o.display).get o'.display = if o' = o then none else d.get o'.display := by
  rw [Dict.get_remove]
  simp only [OutPoint.display_inj]

end Tables

/-! ## The writes -/

variable (s : InMemoryStateStore)

theorem toLedger_nextTick : s.nextTick.toLedger = s.toLedger.nextTick := rfl

theorem toLedger_putAccount (account : Account) :
    (s.putAccount account).toLedger = s.toLedger.putAccount account :=
  Ledger.ext (get_set_eq_update _ _ _) rfl rfl rfl rfl rfl

theorem toLedger_putScope (scope : WalletScope) :
    (s.putScope scope).1 = (s.toLedger.putScope scope).1 ∧
      (s.putScope scope).2.toLedger = (s.toLedger.putScope scope).2 := by
  have hread : s.toLedger.account scope.accountId = s.accounts.get scope.accountId := rfl
  unfold putScope Ledger.putScope
  rw [hread]
  cases s.accounts.get scope.accountId with
  | none => exact ⟨rfl, rfl⟩
  | some account =>
    exact ⟨rfl, Ledger.ext (get_set_eq_update _ _ _) (get_set_eq_update _ _ _) rfl rfl rfl rfl⟩

theorem toLedger_putUtxo (utxo : ManagedUtxo) :
    (s.putUtxo utxo).toLedger = s.toLedger.putUtxo utxo := by
  refine Ledger.ext rfl rfl (funext fun o => ?_) rfl rfl rfl
  change (s.putUtxo utxo).cell o = Function.update s.cell utxo.outpoint _ o
  rw [Function.update_apply]
  unfold cell putUtxo nextTick getUtxo getLock
  simp only [get_set_display]
  split_ifs with h
  · rw [h]
    rfl
  · rfl

theorem toLedger_persistIntent (selection : OperationSelection) :
    (s.persistIntent selection).1 = (s.toLedger.persistIntent selection).1 ∧
      (s.persistIntent selection).2.toLedger = (s.toLedger.persistIntent selection).2 := by
  have hread : s.toLedger.intent selection.operationId = s.intents.get selection.operationId := rfl
  unfold persistIntent Ledger.persistIntent
  rw [hread]
  cases s.intents.get selection.operationId with
  | none => exact ⟨rfl, Ledger.ext rfl rfl rfl rfl (get_set_eq_update _ _ _) rfl⟩
  | some existing =>
    simp only
    split_ifs with h <;> exact ⟨rfl, rfl⟩

theorem toLedger_setStatus (id : OperationId) (intent : OperationIntent) (status : IntentStatus) :
    ({ s with intents := s.intents.set id { intent with status } }.nextTick).toLedger =
      s.toLedger.setStatus id intent status :=
  Ledger.ext rfl rfl rfl rfl (get_set_eq_update _ _ _) rfl

theorem toLedger_markIntentCommitted (id : OperationId) :
    (s.markIntentCommitted id).1 = (s.toLedger.markIntentCommitted id).1 ∧
      (s.markIntentCommitted id).2.toLedger = (s.toLedger.markIntentCommitted id).2 := by
  have hread : s.toLedger.intent id = s.intents.get id := rfl
  unfold markIntentCommitted Ledger.markIntentCommitted
  rw [hread]
  cases s.intents.get id with
  | none => exact ⟨rfl, rfl⟩
  | some intent =>
    simp only
    split_ifs with h
    · exact ⟨rfl, rfl⟩
    · exact ⟨rfl, toLedger_setStatus s id intent .committed⟩

theorem toLedger_releaseOperation (id : OperationId) (phase : OperationPhase) :
    (s.releaseOperation id phase).2.toLedger = s.toLedger.releaseOperation id phase := by
  refine Ledger.ext rfl rfl (funext fun o => ?_) (get_set_eq_update _ _ _) rfl rfl
  exact Cell.ext (Dict.get_mapValues _ _ _) (Dict.get_retain _ _ _)

/-- A release frees the outputs of its operation. -/
theorem cell_releaseOperation (id : OperationId) (phase : OperationPhase) (o : OutPoint) :
    (s.releaseOperation id phase).2.cell o = (s.cell o).release id :=
  congrFun (congrArg Ledger.cell (toLedger_releaseOperation s id phase)) o

theorem getOperation_releaseOperation (id : OperationId) (phase : OperationPhase) :
    (s.releaseOperation id phase).2.getOperation = Function.update s.getOperation id
      (some ⟨id, phase, saturatingAdd s.tick 1, none⟩) :=
  congrArg Ledger.operation (toLedger_releaseOperation s id phase)

theorem toLedger_advanceOperation (id : OperationId) (phase : OperationPhase) :
    (s.advanceOperation id phase).2.toLedger = s.toLedger.advanceOperation id phase := by
  refine Ledger.ext rfl rfl (funext fun o => ?_) (get_set_eq_update _ _ _) rfl rfl
  exact Cell.ext (Dict.get_mapValues _ _ _) (Dict.get_mapValues _ _ _)

theorem toLedger_markIntentFailed (id : OperationId) :
    (s.markIntentFailed id).1 = (s.toLedger.markIntentFailed id).1 ∧
      (s.markIntentFailed id).2.toLedger = (s.toLedger.markIntentFailed id).2 := by
  have hintent : s.toLedger.intent id = s.getIntent id := rfl
  have hoperation : s.toLedger.operation id = s.getOperation id := rfl
  have hfail : ∀ t : InMemoryStateStore, ∀ i,
      (t.setIntentFailed id i).toLedger = t.toLedger.setStatus id i .failed :=
    fun t i => toLedger_setStatus t id i .failed
  unfold markIntentFailed Ledger.markIntentFailed
  rw [hintent, hoperation]
  cases s.getIntent id with
  | none => exact ⟨rfl, rfl⟩
  | some intent =>
    cases hst : intent.status with
    | committed => simp only [hst, and_self]
    | failed => simp only [hst, and_self]
    | pending =>
      cases s.getOperation id with
      | none => simp only [hst, hfail, and_self]
      | some operation =>
        cases hp : operation.phase <;>
          simp only [hst, hp, hfail, toLedger_releaseOperation, and_self]

/-! ### The outpoints an operation is bound to -/

section Bound

variable {s}

/-- The outpoints collected by the loops of `release_operation` and `complete_operation`. -/
theorem enumerates_boundOutpoints (h : s.WellKeyed) (id : OperationId) :
    Enumerates ((s.utxos.values.filter (·.boundTo id)).map (·.outpoint))
      (s.toLedger.boundOutpoints id) := by
  constructor
  · have hnd : (s.utxos.values.map (·.outpoint)).Nodup := by
      refine Dict.nodup_map_values _ fun k k' v v' hv hv' heq => ?_
      rw [← h.utxo k v hv, ← h.utxo k' v' hv', heq]
    exact hnd.sublist (List.filter_sublist.map _)
  · intro o
    rw [List.mem_map]
    constructor
    · rintro ⟨u, hu, rfl⟩
      obtain ⟨hmem, hbound⟩ := List.mem_filter.mp hu
      obtain ⟨k, hk⟩ := Dict.mem_values.mp hmem
      refine ⟨u, ?_, hbound⟩
      rw [← h.utxo k u hk] at hk
      exact hk
    · rintro ⟨u, hu, hbound⟩
      have hk : s.utxos.get o.display = some u := hu
      exact ⟨u, List.mem_filter.mpr ⟨Dict.mem_values.mpr ⟨_, hk⟩, hbound⟩,
        OutPoint.display_injective (h.utxo _ _ hk)⟩

end Bound

theorem toLedger_completeOperation {s : InMemoryStateStore} (h : s.WellKeyed) (id : OperationId)
    (phase : OperationPhase) :
    (StoreCall.completeOperation id phase).AgreeResult (s.completeOperation id phase).1
        (s.toLedger.completeOperation id phase).1 ∧
      (s.completeOperation id phase).2.toLedger = (s.toLedger.completeOperation id phase).2 := by
  have hintent : s.toLedger.intent id = s.intents.get id := rfl
  have hoperation : s.toLedger.operation id = s.operations.get id := rfl
  unfold completeOperation Ledger.completeOperation
  rw [hintent, hoperation]
  cases s.operations.get id with
  | none => exact ⟨rfl, rfl⟩
  | some operation =>
    cases s.intents.get id with
    | none => exact ⟨rfl, rfl⟩
    | some intent =>
      simp only
      split_ifs with hst
      · exact ⟨rfl, rfl⟩
      · cases operation.validateAdvance phase with
        | error e => exact ⟨rfl, rfl⟩
        | ok advances =>
          cases advances with
          | false => exact ⟨⟨List.nodup_nil, fun o => by simp⟩, rfl⟩
          | true =>
            exact ⟨enumerates_boundOutpoints h id, toLedger_advanceOperation s id phase⟩

theorem toLedger_releaseSelectedOperation {s : InMemoryStateStore} (h : s.WellKeyed)
    (id : OperationId) :
    (StoreCall.releaseSelectedOperation id).Agree (s.releaseSelectedOperation id).1
        (s.toLedger.releaseSelectedOperation id).1 ∧
      (s.releaseSelectedOperation id).2.toLedger = (s.toLedger.releaseSelectedOperation id).2 := by
  have hoperation : s.toLedger.operation id = s.operations.get id := rfl
  unfold releaseSelectedOperation Ledger.releaseSelectedOperation
  rw [hoperation]
  split_ifs with hsel
  · exact ⟨trivial, rfl⟩
  · exact ⟨enumerates_boundOutpoints h id, toLedger_releaseOperation s id .rollingBack⟩

/-! ### Batches -/

/-- The cells of the outputs and locks a batch is working on. -/
def cellsOf (st : Dict String ManagedUtxo × Dict String OperationLock) (o : OutPoint) : Cell :=
  ⟨st.1.get o.display, st.2.get o.display⟩

/-- One effect is the check and the update of its own cell. -/
theorem applyEffect_cellsOf (batch : StateBatch) (tick : ℕ) (effect : SelectionEffect)
    (st : Dict String ManagedUtxo × Dict String OperationLock) :
    (applyEffect batch tick effect st).map cellsOf =
      ((cellsOf st effect.outpoint).checkHold batch effect).map fun _ =>
        Function.update (cellsOf st) effect.outpoint
          ((cellsOf st effect.outpoint).hold batch tick effect.purpose) := by
  obtain ⟨utxos, locks⟩ := st
  unfold applyEffect validateLockEffect Cell.checkHold Cell.hold
  simp only [cellsOf]
  cases hu : utxos.get effect.outpoint.display with
  | none => rfl
  | some utxo =>
    by_cases happ : alreadyApplied batch.selection.operationId batch.phase utxo
        (locks.get effect.outpoint.display) = true
    · have hself : Function.update (cellsOf (utxos, locks)) effect.outpoint
          ⟨some utxo, locks.get effect.outpoint.display⟩ = cellsOf (utxos, locks) := by
        rw [← hu]
        exact Function.update_eq_self _ _
      simp only [happ, if_true, ite_self, bind, Except.bind]
      by_cases hdiff : (locks.get effect.outpoint.display).any
          (lockDiffers batch utxo effect.purpose) = true
      · simp only [hdiff, if_true]
        rfl
      · simp only [hdiff]
        exact congrArg Except.ok hself.symm
    · by_cases hfree : utxo.canBeLocked (locks.get effect.outpoint.display).isSome = true
      · simp only [happ, hfree, if_true, bind, Except.bind]
        refine congrArg Except.ok (funext fun o => ?_)
        simp only [Function.update_apply, cellsOf, get_set_display]
        split_ifs <;> first | rfl | contradiction
      · simp only [happ, hfree, bind, Except.bind]
        rfl

theorem applyEffects_cellsOf (batch : StateBatch) (tick : ℕ) (effects : List SelectionEffect)
    (st : Dict String ManagedUtxo × Dict String OperationLock) :
    (applyEffects batch tick effects st).map cellsOf =
      Pointwise.checkedUpdates (·.outpoint) (fun effect c => c.checkHold batch effect)
        (fun effect c => c.hold batch tick effect.purpose) effects (cellsOf st) := by
  induction effects generalizing st with
  | nil => rfl
  | cons effect effects ih =>
    have hstep := applyEffect_cellsOf batch tick effect st
    unfold applyEffects Pointwise.checkedUpdates
    cases happly : applyEffect batch tick effect st with
    | error e =>
      rw [happly] at hstep
      cases hcheck : (cellsOf st effect.outpoint).checkHold batch effect with
      | error e' =>
        rw [hcheck] at hstep
        exact congrArg Except.error (Except.error.inj hstep)
      | ok u =>
        rw [hcheck] at hstep
        cases hstep
    | ok st' =>
      rw [happly] at hstep
      cases hcheck : (cellsOf st effect.outpoint).checkHold batch effect with
      | error e' =>
        rw [hcheck] at hstep
        cases hstep
      | ok u =>
        rw [hcheck] at hstep
        refine (ih st').trans ?_
        rw [Except.ok.inj hstep]
        rfl

theorem checkBatch_toLedger (batch : StateBatch) :
    s.checkBatch batch = s.toLedger.checkBatch batch := rfl

/-- Checking and writing effect by effect is checking all of them and then writing. -/
theorem planBatch_cellsOf (batch : StateBatch) :
    (s.planBatch batch).map cellsOf =
      (s.toLedger.validateBatch batch).map fun _ => s.toLedger.holdCells batch := by
  unfold planBatch Ledger.validateBatch
  rw [checkBatch_toLedger]
  cases s.toLedger.checkBatch batch with
  | error e => rfl
  | ok u =>
    change Except.map cellsOf (OperationSelection.validateCapabilities (m := DomainResult)
      batch.selection _ _ _ >>= _) = Except.map _ (OperationSelection.validateCapabilities
        (m := DomainResult) batch.selection (fun id => .ok (s.getAccount id))
          (fun id => .ok (s.getScope id)) (fun id => .ok (s.getUtxo id)) >>= _)
    cases hcap : OperationSelection.validateCapabilities (m := DomainResult) batch.selection
        (fun id => .ok (s.getAccount id)) (fun id => .ok (s.getScope id))
        (fun id => .ok (s.getUtxo id)) with
    | error e => rfl
    | ok u =>
      have hwf := (OperationSelection.validateCapabilities_eq_ok_iff.mp hcap).wellFormed
      refine (applyEffects_cellsOf batch s.tick batch.selection.effects (s.utxos, s.locks)).trans ?_
      exact Pointwise.checkedUpdates_of_nodup _ hwf.effects_nodup

theorem toLedger_applyBatch (batch : StateBatch) :
    (s.applyBatch batch).1 = (s.toLedger.applyBatch batch).1 ∧
      (s.applyBatch batch).2.toLedger = (s.toLedger.applyBatch batch).2 := by
  have hplan := planBatch_cellsOf s batch
  unfold applyBatch Ledger.applyBatch
  cases hp : s.planBatch batch with
  | error e =>
    rw [hp] at hplan
    cases hv : s.toLedger.validateBatch batch with
    | error e' =>
      rw [hv] at hplan
      cases hplan
      exact ⟨rfl, rfl⟩
    | ok u =>
      rw [hv] at hplan
      cases hplan
  | ok next =>
    rw [hp] at hplan
    cases hv : s.toLedger.validateBatch batch with
    | error e' =>
      rw [hv] at hplan
      cases hplan
    | ok u =>
      rw [hv] at hplan
      exact ⟨rfl, Ledger.ext rfl rfl (Except.ok.inj hplan) (get_set_eq_update _ _ _) rfl rfl⟩

/-! ### Reconciliation -/

/-- One action is the update of its own cell. -/
theorem applyAction_cell (action : ReconciliationAction) :
    (s.applyAction action).cell =
      Function.update s.cell action.outpoint ((s.cell action.outpoint).act action) := by
  funext o
  rw [Function.update_apply]
  cases action with
  | discoverNew observed =>
    by_cases hmanaged : (s.utxos.get observed.outpoint.display).isSome = true
    · have hself : s.applyAction (.discoverNew observed) = s := if_pos hmanaged
      have hact : (s.cell observed.outpoint).act (.discoverNew observed) =
          s.cell observed.outpoint := if_pos hmanaged
      rw [hself]
      split_ifs with h
      · rw [h]
        exact hact.symm
      · rfl
    · have hset : s.applyAction (.discoverNew observed) =
          { s with utxos := s.utxos.set observed.outpoint.display _ } := if_neg hmanaged
      have hact : (s.cell observed.outpoint).act (.discoverNew observed) =
          ⟨some _, (s.cell observed.outpoint).lock⟩ := if_neg hmanaged
      rw [hset]
      change _ = if o = observed.outpoint then
        (s.cell observed.outpoint).act (.discoverNew observed) else s.cell o
      by_cases h : o = observed.outpoint
      · rw [if_pos h, hact, h]
        exact Cell.ext (Dict.get_set_self _ _ _) rfl
      · rw [if_neg h]
        exact Cell.ext ((get_set_display _ _ _ _).trans (if_neg h)) rfl
  | refreshObserved observed =>
    change s.cell o = if o = observed.outpoint then s.cell observed.outpoint else s.cell o
    split_ifs with h
    · rw [h]
    · rfl
  | updateOnchainState | markSpent | reportConflict | clearConflict | updateAvailability
    | markMissing =>
    unfold applyAction ReconciliationAction.outpoint Cell.act cell getUtxo getLock
    simp only [get_modify_display, get_remove_display]
    split_ifs with h
    · first
        | rfl
        | rw [h]
    · rfl

/-- The other records are not touched by an action. -/
theorem applyAction_frame (action : ReconciliationAction) :
    (s.applyAction action).toLedger =
      { s.toLedger with cell := (s.applyAction action).cell } := by
  cases action with
  | discoverNew observed =>
    by_cases hmanaged : (s.utxos.get observed.outpoint.display).isSome = true
    · rw [show s.applyAction (.discoverNew observed) = s from if_pos hmanaged]
      rfl
    · rw [show s.applyAction (.discoverNew observed) = _ from if_neg hmanaged]
      rfl
  | refreshObserved | updateOnchainState | markSpent | reportConflict | clearConflict
    | updateAvailability | markMissing => rfl

theorem toLedger_foldl_applyAction (actions : List ReconciliationAction) :
    (actions.foldl applyAction s).toLedger =
      { s.toLedger with
        cell := Pointwise.updateAll ReconciliationAction.outpoint Cell.act actions s.cell } := by
  induction actions generalizing s with
  | nil => rfl
  | cons action actions ih =>
    rw [List.foldl_cons, ih, applyAction_frame, applyAction_cell]
    rfl

theorem toLedger_applyReconciliation (plan : ReconcilePlan) :
    (s.applyReconciliation plan).toLedger = s.toLedger.applyReconciliation plan := by
  have hfold := toLedger_foldl_applyAction s plan.actions
  unfold applyReconciliation Ledger.applyReconciliation
  rw [toLedger_nextTick, hfold]
  refine Ledger.ext rfl rfl (funext fun o => ?_) rfl rfl rfl
  exact Pointwise.updateAll_apply _ _ _ _ _

/-! ## Keys -/

/-- Outputs are kept under the text of their outpoint. -/
def UtxosKeyed (utxos : Dict String ManagedUtxo) : Prop :=
  ∀ k u, utxos.get k = some u → u.outpoint.display = k

namespace UtxosKeyed

variable {utxos : Dict String ManagedUtxo}

theorem set (h : UtxosKeyed utxos) (u : ManagedUtxo) :
    UtxosKeyed (utxos.set u.outpoint.display u) := by
  intro k v hv
  rw [Dict.get_set] at hv
  split_ifs at hv with hk
  · cases hv
    exact hk.symm
  · exact h k v hv

theorem mapValues (h : UtxosKeyed utxos) {f : ManagedUtxo → ManagedUtxo}
    (hf : ∀ u, (f u).outpoint = u.outpoint) : UtxosKeyed (utxos.mapValues f) := by
  intro k v hv
  rw [Dict.get_mapValues, Option.map_eq_some_iff] at hv
  obtain ⟨u, hu, rfl⟩ := hv
  rw [hf]
  exact h k u hu

theorem modify (h : UtxosKeyed utxos) {key : String} {f : ManagedUtxo → ManagedUtxo}
    (hf : ∀ u, (f u).outpoint = u.outpoint) : UtxosKeyed (utxos.modify key f) := by
  intro k v hv
  rw [Dict.get_modify] at hv
  split_ifs at hv with hk
  · obtain ⟨u, hu, rfl⟩ := Option.map_eq_some_iff.mp hv
    rw [hf, hk]
    exact h key u hu
  · exact h k v hv

theorem applyEffect (h : UtxosKeyed utxos) {batch : StateBatch} {tick : ℕ}
    {effect : SelectionEffect} {locks : Dict String OperationLock}
    {st : Dict String ManagedUtxo × Dict String OperationLock}
    (hst : InMemoryStateStore.applyEffect batch tick effect (utxos, locks) = .ok st) :
    UtxosKeyed st.1 := by
  unfold InMemoryStateStore.applyEffect at hst
  dsimp only at hst
  cases hv : validateLockEffect utxos locks batch.selection batch.phase effect.outpoint with
  | error e =>
    rw [hv] at hst
    cases hst
  | ok u =>
    simp only [hv, bind, Except.bind] at hst
    cases hu : utxos.get effect.outpoint.display with
    | none =>
      rw [hu] at hst
      cases hst
    | some u =>
      simp only [hu] at hst
      split_ifs at hst
      · cases hst
        exact h
      · cases hst
        have hkey : (u.reserve batch.selection.operationId batch.phase).outpoint.display =
            effect.outpoint.display := h _ u hu
        simp only [← hkey]
        exact h.set _

theorem applyEffects {batch : StateBatch} {tick : ℕ} {effects : List SelectionEffect}
    {st st' : Dict String ManagedUtxo × Dict String OperationLock} (h : UtxosKeyed st.1)
    (hst : InMemoryStateStore.applyEffects batch tick effects st = .ok st') :
    UtxosKeyed st'.1 := by
  induction effects generalizing st with
  | nil =>
    cases hst
    exact h
  | cons effect effects ih =>
    unfold InMemoryStateStore.applyEffects at hst
    cases hone : InMemoryStateStore.applyEffect batch tick effect st with
    | error e =>
      rw [hone] at hst
      cases hst
    | ok next =>
      rw [hone] at hst
      exact ih (h.applyEffect hone) hst

end UtxosKeyed

/-- A table whose records carry their own key stays so when such a record is stored. -/
theorem keyed_set {κ ν : Type} [DecidableEq κ] {d : Dict κ ν} {key : ν → κ}
    (h : ∀ k v, d.get k = some v → key v = k) {k : κ} {v : ν} (hv : key v = k) :
    ∀ k' v', (d.set k v).get k' = some v' → key v' = k' := by
  intro k' v' hget
  rw [Dict.get_set] at hget
  split_ifs at hget with hk
  · cases hget
    rw [hv, hk]
  · exact h k' v' hget

namespace WellKeyed

variable {s : InMemoryStateStore}

theorem empty : InMemoryStateStore.empty.WellKeyed where
  utxo _ _ h := nomatch h
  account _ _ h := nomatch h
  scope _ _ h := nomatch h
  operation _ _ h := nomatch h
  intent _ _ h := nomatch h

theorem nextTick (h : s.WellKeyed) : s.nextTick.WellKeyed :=
  ⟨h.utxo, h.account, h.scope, h.operation, h.intent⟩

theorem releaseOperation (h : s.WellKeyed) (id : OperationId) (phase : OperationPhase) :
    (s.releaseOperation id phase).2.WellKeyed where
  utxo := UtxosKeyed.mapValues h.utxo fun u => u.releaseIfBound_outpoint id
  account := h.account
  scope := h.scope
  operation := keyed_set h.operation rfl
  intent := h.intent

theorem applyAction (h : s.WellKeyed) (action : ReconciliationAction) :
    (s.applyAction action).WellKeyed := by
  cases action with
  | discoverNew observed =>
    by_cases hmanaged : (s.utxos.get observed.outpoint.display).isSome = true
    · rw [show s.applyAction (.discoverNew observed) = s from if_pos hmanaged]
      exact h
    · rw [show s.applyAction (.discoverNew observed) = _ from if_neg hmanaged]
      exact ⟨UtxosKeyed.set h.utxo _, h.account, h.scope, h.operation, h.intent⟩
  | refreshObserved => exact h
  | updateOnchainState =>
    refine ⟨UtxosKeyed.modify h.utxo fun u => ?_, h.account, h.scope, h.operation, h.intent⟩
    split_ifs <;> rfl
  | markSpent | reportConflict | clearConflict | updateAvailability | markMissing =>
    exact ⟨UtxosKeyed.modify h.utxo fun u => rfl, h.account, h.scope, h.operation, h.intent⟩

theorem setStatus (h : s.WellKeyed) {id : OperationId} {intent : OperationIntent}
    (hi : s.intents.get id = some intent) (status : IntentStatus) :
    ({ s with intents := s.intents.set id { intent with status } }.nextTick).WellKeyed :=
  ⟨h.utxo, h.account, h.scope, h.operation, keyed_set h.intent (h.intent id intent hi)⟩

theorem setIntentFailed (h : s.WellKeyed) {id : OperationId} {intent : OperationIntent}
    (hi : s.intents.get id = some intent) : (s.setIntentFailed id intent).WellKeyed :=
  h.setStatus hi .failed

/-- No call moves a record to another key. -/
theorem exec (h : s.WellKeyed) (c : StoreCall) : (InMemoryStateStore.exec c s).2.WellKeyed := by
  cases c with
  | getAccount | getScope | getUtxo | getLock | getOperation | getIntent | listUtxos
    | listOperations | listPendingIntents | currentTick => exact h
  | putAccount account =>
    exact ⟨h.utxo, keyed_set h.account rfl, h.scope, h.operation, h.intent⟩
  | putScope scope =>
    change (s.putScope scope).2.WellKeyed
    unfold putScope
    cases ha : s.accounts.get scope.accountId with
    | none => exact h
    | some account =>
      exact ⟨h.utxo, keyed_set h.account (h.account _ account ha), keyed_set h.scope rfl,
        h.operation, h.intent⟩
  | putUtxo utxo =>
    exact ⟨UtxosKeyed.set h.utxo utxo, h.account, h.scope, h.operation, h.intent⟩
  | advanceTick delta => exact ⟨h.utxo, h.account, h.scope, h.operation, h.intent⟩
  | persistIntent selection =>
    change (s.persistIntent selection).2.WellKeyed
    unfold persistIntent
    cases s.intents.get selection.operationId with
    | none => exact ⟨h.utxo, h.account, h.scope, h.operation, keyed_set h.intent rfl⟩
    | some existing =>
      simp only
      split_ifs <;> exact h
  | markIntentCommitted id =>
    change (s.markIntentCommitted id).2.WellKeyed
    unfold markIntentCommitted
    cases hi : s.intents.get id with
    | none => exact h
    | some intent =>
      simp only
      split_ifs
      · exact h
      · exact h.setStatus hi .committed
  | markIntentFailed id =>
    change (s.markIntentFailed id).2.WellKeyed
    unfold markIntentFailed
    cases hi : s.getIntent id with
    | none => exact h
    | some intent =>
      cases hst : intent.status with
      | committed => simpa only [hst] using h
      | failed => simpa only [hst] using h
      | pending =>
        cases s.getOperation id with
        | none => simpa only [hst] using h.setIntentFailed hi
        | some operation =>
          cases hp : operation.phase with
          | selected =>
            have hrel := h.releaseOperation id .rollingBack
            simpa only [hst, hp] using hrel.setIntentFailed hi
          | rollingBack => simpa only [hst, hp] using h.setIntentFailed hi
          | constructing | signed | broadcast | awaitingConfirmation | awaitingL2Finality =>
            simpa only [hst, hp] using h
  | applyBatch batch =>
    change (s.applyBatch batch).2.WellKeyed
    unfold applyBatch
    cases hp : s.planBatch batch with
    | error e => exact h
    | ok next =>
      refine ⟨?_, h.account, h.scope, keyed_set h.operation rfl, h.intent⟩
      unfold planBatch at hp
      cases hc : s.checkBatch batch with
      | error e =>
        rw [hc] at hp
        cases hp
      | ok u =>
        simp only [hc, bind, Except.bind] at hp
        split at hp
        · cases hp
        · have hst : UtxosKeyed (s.utxos, s.locks).1 := h.utxo
          exact hst.applyEffects hp
  | applyReconciliation plan =>
    have hfold : ∀ actions : List ReconciliationAction, ∀ t : InMemoryStateStore,
        t.WellKeyed → (actions.foldl InMemoryStateStore.applyAction t).WellKeyed := by
      intro actions
      induction actions with
      | nil => exact fun t ht => ht
      | cons action actions ih => exact fun t ht => ih _ (ht.applyAction action)
    exact (hfold plan.actions s h).nextTick
  | releaseSelectedOperation id =>
    change (s.releaseSelectedOperation id).2.WellKeyed
    unfold releaseSelectedOperation
    split_ifs
    · exact h
    · exact h.releaseOperation id .rollingBack
  | releaseOperation id phase => exact h.releaseOperation id phase
  | completeOperation id phase =>
    change (s.completeOperation id phase).2.WellKeyed
    unfold completeOperation
    cases s.operations.get id with
    | none => exact h
    | some operation =>
      cases s.intents.get id with
      | none => exact h
      | some intent =>
        simp only
        split_ifs
        · exact h
        · cases operation.validateAdvance phase with
          | error e => exact h
          | ok advances =>
            cases advances with
            | false => exact h
            | true =>
              exact ⟨UtxosKeyed.mapValues h.utxo fun u => u.advanceIfBound_outpoint id phase,
                h.account, h.scope, keyed_set h.operation rfl, h.intent⟩

end WellKeyed

/-! ## The refinement -/

theorem enumerates_values {κ ν : Type} [DecidableEq κ] {d : Dict κ ν} {key : ν → κ}
    (h : ∀ k v, d.get k = some v → key v = k) :
    Enumerates d.values {v | ∃ k, d.get k = some v} := by
  refine ⟨?_, fun v => Dict.mem_values⟩
  have hnd := Dict.nodup_map_values (d := d) key fun k k' v v' hv hv' heq => by
    rw [← h k v hv, ← h k' v' hv', heq]
  exact hnd.of_map

theorem enumerates_listUtxos {s : InMemoryStateStore} (h : s.WellKeyed) :
    Enumerates s.listUtxos {u | ∃ o, s.toLedger.utxo o = some u} := by
  obtain ⟨hnd, hmem⟩ := enumerates_values h.utxo
  refine ⟨hnd, fun u => (hmem u).trans ⟨?_, ?_⟩⟩
  · rintro ⟨k, hk⟩
    refine ⟨u.outpoint, ?_⟩
    change s.utxos.get u.outpoint.display = some u
    rw [h.utxo k u hk]
    exact hk
  · rintro ⟨o, ho⟩
    exact ⟨o.display, ho⟩

theorem enumerates_listPendingIntents {s : InMemoryStateStore} (h : s.WellKeyed) :
    Enumerates s.listPendingIntents
      {i | (∃ id, s.toLedger.intent id = some i) ∧ i.status = .pending} := by
  obtain ⟨hnd, hmem⟩ := enumerates_values h.intent
  refine ⟨hnd.filter _, fun i => ?_⟩
  unfold listPendingIntents
  rw [List.mem_filter, decide_eq_true_eq]
  exact and_congr_left fun _ => hmem i

/-- Every call returns what it returns on the ledger, and leaves the ledger it leaves there. -/
theorem exec_refines {s : InMemoryStateStore} (h : s.WellKeyed) (c : StoreCall) :
    c.AgreeResult (exec c s).1 (Ledger.exec c s.toLedger).1 ∧
      (exec c s).2.toLedger = (Ledger.exec c s.toLedger).2 := by
  cases c with
  | getAccount | getScope | getUtxo | getLock | getOperation | getIntent | currentTick =>
    exact ⟨rfl, rfl⟩
  | listUtxos => exact ⟨enumerates_listUtxos h, rfl⟩
  | listOperations => exact ⟨enumerates_values h.operation, rfl⟩
  | listPendingIntents => exact ⟨enumerates_listPendingIntents h, rfl⟩
  | putAccount account => exact ⟨rfl, toLedger_putAccount s account⟩
  | putScope scope =>
    obtain ⟨hresult, hledger⟩ := toLedger_putScope s scope
    exact ⟨ResultAgree.of_eq hresult, hledger⟩
  | putUtxo utxo => exact ⟨rfl, toLedger_putUtxo s utxo⟩
  | advanceTick delta => exact ⟨rfl, rfl⟩
  | persistIntent selection =>
    obtain ⟨hresult, hledger⟩ := toLedger_persistIntent s selection
    exact ⟨ResultAgree.of_eq hresult, hledger⟩
  | markIntentCommitted id =>
    obtain ⟨hresult, hledger⟩ := toLedger_markIntentCommitted s id
    exact ⟨ResultAgree.of_eq hresult, hledger⟩
  | markIntentFailed id =>
    obtain ⟨hresult, hledger⟩ := toLedger_markIntentFailed s id
    exact ⟨ResultAgree.of_eq hresult, hledger⟩
  | applyBatch batch =>
    obtain ⟨hresult, hledger⟩ := toLedger_applyBatch s batch
    exact ⟨ResultAgree.of_eq hresult, hledger⟩
  | applyReconciliation plan => exact ⟨rfl, toLedger_applyReconciliation s plan⟩
  | releaseSelectedOperation id => exact toLedger_releaseSelectedOperation h id
  | releaseOperation id phase =>
    exact ⟨enumerates_boundOutpoints h id, toLedger_releaseOperation s id phase⟩
  | completeOperation id phase => exact toLedger_completeOperation h id phase

end InMemoryStateStore

end Txoscope
