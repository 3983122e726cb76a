import Txoscope.Core.UtxoStatus
import Txoscope.Memory.Runs

/-!
# Safety of the in-memory store

What holds in every state a run of the in-memory store reaches: locks and bindings agree with each
other and with the records of their operation (`lock_iff_binding`), an input of a broadcast
operation is never offered again (`no_reuse_after_broadcast`), and the lifecycles of operations
and intents are one-way (`lifecycle_one_way`).
-/

namespace Txoscope

namespace InMemoryStateStore

variable {s s' s'' : InMemoryStateStore}

/-! ## A sample run -/

/-- Outputs are put in as new ones only, and only the plans of `plans` are applied. -/
def newRules (plans : ReconcilePlan → Prop) : Ledger.Rules := ⟨Ledger.putsNew, fun _ => plans⟩

/-- Outputs are put in as new ones only, and any plan may be applied. -/
abbrev freeRules : Ledger.Rules := newRules fun _ => True

instance (l : Ledger) (c : StoreCall) : Decidable (l.Admissible freeRules c) :=
  match c with
  | .putUtxo u => inferInstanceAs (Decidable (l.utxo u.outpoint = none ∧
      u = ManagedUtxo.new u.outpoint u.accountId u.scopeId u.valueSats))
  | .applyBatch batch => inferInstanceAs (Decidable (batch.phase = .selected ∧
      (l.intent batch.selection.operationId).isSome = true))
  | .releaseOperation _ phase => inferInstanceAs (Decidable (phase = .rollingBack))
  | .applyReconciliation _ | .getAccount _ | .getScope _ | .getUtxo _ | .getLock _
  | .getOperation _ | .getIntent _ | .listUtxos | .listOperations | .listPendingIntents
  | .currentTick | .putAccount _ | .putScope _ | .advanceTick _ | .persistIntent _
  | .markIntentCommitted _ | .markIntentFailed _ | .releaseSelectedOperation _
  | .completeOperation _ _ => isTrue trivial

namespace Sample

def accountId : AccountId := ⟨"account"⟩

def scopeId : WalletScopeId := ⟨"scope"⟩

def capabilities : CapabilitySet := {.btcSpend, .btcReceive}

def outpoint : OutPoint := ⟨"aa", 0⟩

def operationId : OperationId := ⟨"send"⟩

def selection : OperationSelection :=
  ⟨operationId, [outpoint], scopeId, [⟨outpoint, .btcSend⟩], none⟩

/-- One account with one scope and one output, which an operation reserves. -/
def calls : List StoreCall :=
  [.putAccount ⟨accountId, "account", [], capabilities⟩,
    .putScope ⟨scopeId, accountId, "descriptor", "derivation", capabilities, 0⟩,
    .putUtxo (ManagedUtxo.new outpoint accountId scopeId 1000), .persistIntent selection,
    .applyBatch ⟨selection, .selected, "owner"⟩, .markIntentCommitted operationId]

def state : InMemoryStateStore := Program.after exec calls empty

theorem run : Run freeRules empty state := Program.steps_after (by decide)

end Sample

/-! ## Ownership agreement -/

/-- What the records say about an outpoint that is locked by `lock`. -/
structure Holds (s : InMemoryStateStore) (o : OutPoint) (lock : OperationLock) (u : ManagedUtxo)
    (b : OperationBinding) (op : PersistedOperation) (i : OperationIntent) : Prop where
  utxo : s.getUtxo o = some u
  binding : u.operationBinding = some b
  owner : lock.operationId = b.operationId
  account : lock.accountId = u.accountId
  scope : lock.scopeId = u.scopeId
  operation : s.getOperation b.operationId = some op
  phase : op.phase = b.phase
  notRollingBack : op.phase ≠ .rollingBack
  intent : s.getIntent b.operationId = some i
  notFailed : i.status ≠ .failed
  listed : o ∈ i.selection.selectedOutpoints

theorem newRules_puts {plans : ReconcilePlan → Prop} (l : Ledger) (u : ManagedUtxo)
    (h : (newRules plans).puts l u) : l.utxo u.outpoint = none ∧ u.operationBinding = none := by
  obtain ⟨hfree, hnew⟩ := h
  exact ⟨hfree, by rw [hnew]; rfl⟩

theorem Run.owned {plans : ReconcilePlan → Prop} (h : Run (newRules plans) empty s) :
    s.toLedger.Owned :=
  h.invariant .empty fun _ _ hl hm => hl.move newRules_puts hm

/-- An outpoint is locked exactly when it is managed and bound, and then the lock, the binding,
the operation and the intent agree. -/
theorem lock_iff_binding (h : Run freeRules empty s) (o : OutPoint) :
    ((s.getLock o).isSome = true ↔
      ∃ u, s.getUtxo o = some u ∧ u.operationBinding.isSome = true) ∧
    ∀ lock, s.getLock o = some lock → ∃ u b op i, s.Holds o lock u b op i := by
  have howned := h.owned
  have hholds : ∀ lock, s.getLock o = some lock → ∃ u b op i, s.Holds o lock u b op i := by
    intro lock hlock
    obtain ⟨u, b, hu, hb, howner, haccount, hscope⟩ := (howned.agrees o).locked lock hlock
    obtain ⟨⟨op, hop, hphase⟩, hrolling, i, hi, hstatus, hlisted⟩ :=
      howned.backs o b (Cell.binding_eq_some_iff.mpr ⟨u, hu, hb⟩)
    exact ⟨u, b, op, i, hu, hb, howner, haccount, hscope, hop, hphase,
      fun hp => hrolling (hphase ▸ hp), hi, hstatus, hlisted⟩
  refine ⟨⟨fun hlock => ?_, fun ⟨u, hu, hbound⟩ => ?_⟩, hholds⟩
  · obtain ⟨lock, hlock⟩ := Option.isSome_iff_exists.mp hlock
    obtain ⟨u, b, op, i, h⟩ := hholds lock hlock
    exact ⟨u, h.utxo, Option.isSome_iff_exists.mpr ⟨b, h.binding⟩⟩
  · obtain ⟨b, hb⟩ := Option.isSome_iff_exists.mp hbound
    exact Option.isSome_iff_exists.mpr ((howned.agrees o).bound u b hu hb)

theorem lock_iff_binding_sample :
    ∃ lock u b op i, Sample.state.Holds Sample.outpoint lock u b op i := by
  have hlock : (Sample.state.getLock Sample.outpoint).isSome = true := by decide
  obtain ⟨lock, hlock⟩ := Option.isSome_iff_exists.mp hlock
  exact ⟨lock, (lock_iff_binding Sample.run Sample.outpoint).2 lock hlock⟩

/-! ## Inputs of a broadcast operation -/

/-- The output is on its way to the chain, is refused to everybody, and is owned by nobody but
`id`. -/
structure KeptBy (s : InMemoryStateStore) (id : OperationId) (o : OutPoint) : Prop where
  onchain : ∃ u, s.getUtxo o = some u ∧
    (u.onchainState = .spendingInFlight ∨ u.onchainState = .spent)
  unavailable : ∃ status, (Program.run exec (Orchestrator.utxoStatus o) s).1 = .ok (some status) ∧
    status.unavailableReason.isSome = true
  lock : ∀ k, s.getLock o = some k → k.operationId = id
  binding : ∀ u b, s.getUtxo o = some u → u.operationBinding = some b → b.operationId = id

/-- The output was spent. -/
def Spent (s : InMemoryStateStore) (o : OutPoint) : Prop :=
  ∃ u, s.getUtxo o = some u ∧ u.onchainState = .spent

theorem run_utxoStatus {o : OutPoint} {u : ManagedUtxo} (h : s.getUtxo o = some u) :
    (Program.run exec (Orchestrator.utxoStatus o) s).1 =
      .ok (some (UtxoStatus.fromRecords u (s.getLock o))) := by
  have hread : Program.run exec (StoreCall.getUtxo o).invoke s = (.ok (some u), s) := by
    change (Except.ok (s.getUtxo o), s) = _
    rw [h]
  unfold Orchestrator.utxoStatus
  rw [Program.run_bind_ok _ hread]
  rfl

theorem KeptBy.of_spendingBy {id : OperationId} {o : OutPoint}
    (h : Ledger.SpendingBy id (s.toLedger.cell o)) : s.KeptBy id o := by
  obtain ⟨⟨u, hu, hs⟩, howner⟩ := h
  have hu : s.getUtxo o = some u := hu
  refine ⟨⟨u, hu, ?_⟩, ⟨_, run_utxoStatus hu, ?_⟩, fun k hk => howner _ (.inl ⟨k, hk, rfl⟩),
    fun v b hv hb => howner _ (.inr ⟨b, Cell.binding_eq_some_iff.mpr ⟨v, hv, hb⟩, rfl⟩)⟩
  · cases hst : u.onchainState with
    | spendingInFlight => exact .inl rfl
    | spent => exact .inr rfl
    | unknown | unconfirmedIncoming | confirmed =>
      rw [hst] at hs
      cases hs
  · have hrefused : u.canBeLocked (s.getLock o).isSome = false := by
      rw [← Bool.not_eq_true, ManagedUtxo.canBeLocked_iff, ManagedUtxo.isPolicySpendable_iff]
      rintro ⟨⟨-, hconfirmed, -⟩, -⟩
      rw [hconfirmed] at hs
      cases hs
    unfold UtxoStatus.fromRecords
    rw [hrefused]
    rfl

/-- A call that advances the phase leaves the ledger advanced. -/
theorem toLedger_completeOperation_of_ok {id : OperationId} {p : OperationPhase}
    {op : PersistedOperation} {outs : List OutPoint} (hop : s.getOperation id = some op)
    (hne : op.phase ≠ p) (hok : (s.completeOperation id p).1 = .ok outs) :
    (s.completeOperation id p).2.toLedger = s.toLedger.advanceOperation id p := by
  have hadvance : op.validateAdvance p ≠ .ok false := by
    unfold PersistedOperation.validateAdvance
    rw [if_neg hne]
    split_ifs <;> simp
  rw [← toLedger_advanceOperation]
  unfold completeOperation at hok ⊢
  rw [show s.operations.get id = some op from hop] at hok ⊢
  cases hi : s.intents.get id with
  | none =>
    simp only [hi] at hok
    cases hok
  | some i =>
    simp only [hi] at hok ⊢
    split_ifs at hok ⊢
    cases hv : op.validateAdvance p with
    | error e =>
      simp only [hv] at hok
      cases hok
    | ok advances =>
      cases advances with
      | false => exact (hadvance hv).elim
      | true => rfl

/-- What is spent stays spent. -/
theorem Spent.run {plans : ReconcilePlan → Prop} {o : OutPoint} (h : s.Spent o)
    (hk : s.WellKeyed) (hrun : Run (newRules plans) s s') : s'.Spent o :=
  (hrun.toLedger hk).2.invariant (I := fun l => Ledger.Spent (l.cell o))
    (fun _ _ hl hm => hl.move (fun l u hu => (newRules_puts l u hu).1) hm) h

/-- When no plan claims a spend without `MarkSpent`, a spent output has no owner. -/
theorem Run.spent_free {plans : ReconcilePlan → Prop} (h : Run (newRules plans) empty s)
    (hplans : ∀ plan, plans plan → Ledger.plansWithoutSpent plan) {o : OutPoint} {u : ManagedUtxo}
    (hu : s.getUtxo o = some u) (hs : u.onchainState = .spent) :
    u.operationBinding = none ∧ s.getLock o = none := by
  have hunbound : s.toLedger.SpentUnbound := h.invariant .empty fun _ _ hl hm =>
    hl.move (fun l u hu => (newRules_puts l u hu).2) (fun _ plan hp => hplans plan hp) hm
  have hnone : u.operationBinding = none := hunbound o u hu hs
  refine ⟨hnone, (h.owned.agrees o).unlocked ?_⟩
  change (s.getUtxo o).bind (·.operationBinding) = none
  rw [hu]
  exact hnone

/-- An input of an operation that advanced to `Broadcast` or further stays with it: whatever plans
are applied, it is in flight or spent, refused to everybody, and owned by nobody else. What is
spent stays spent, and is unbound and unlocked as long as no plan claims a spend by
`UpdateOnchainState`. -/
theorem no_reuse_after_broadcast {plans : ReconcilePlan → Prop} {id : OperationId}
    {p : OperationPhase} {op : PersistedOperation} {outs : List OutPoint} {o : OutPoint}
    {u : ManagedUtxo} (h : Run (newRules plans) empty s) (hop : s.getOperation id = some op)
    (hne : op.phase ≠ p)
    (hp : p = .broadcast ∨ p = .awaitingConfirmation ∨ p = .awaitingL2Finality)
    (hu : s.getUtxo o = some u) (hb : u.boundTo id = true)
    (hok : (s.completeOperation id p).1 = .ok outs)
    (hrun : Run (newRules plans) (s.completeOperation id p).2 s') :
    s'.KeptBy id o ∧
      (s'.Spent o → ∀ s'', Run (newRules plans) s' s'' → s''.Spent o) ∧
      ((∀ plan, plans plan → Ledger.plansWithoutSpent plan) →
        ∀ v, s'.getUtxo o = some v → v.onchainState = .spent →
          v.operationBinding = none ∧ s'.getLock o = none) := by
  have hstarts : p.startsSpending = true := by rcases hp with rfl | rfl | rfl <;> rfl
  have hledger := toLedger_completeOperation_of_ok hop hne hok
  have hcall : Run (newRules plans) s (s.completeOperation id p).2 :=
    .single (.call (StoreCall.completeOperation id p) trivial)
  have hall : Run (newRules plans) empty s' := (h.trans hcall).trans hrun
  -- the advance itself
  have hadvanced : Ledger.SpendingBy id ((s.completeOperation id p).2.toLedger.cell o) := by
    rw [hledger]
    refine ⟨⟨u.advanceIfBound id p, congrArg (Option.map _) hu,
      ManagedUtxo.isSpending_advanceIfBound_of_bound hb hstarts⟩, fun id' hown => ?_⟩
    obtain ⟨b, hub, rfl⟩ := ManagedUtxo.boundTo_iff.mp hb
    rcases Cell.Owner.of_advance hown with ⟨k, hk, rfl⟩ | ⟨b', hb', rfl⟩
    · exact (h.owned.agrees o).owner_eq hu hub hk
    · obtain ⟨v, hv, hvb⟩ := Cell.binding_eq_some_iff.mp hb'
      rw [show (s.toLedger.cell o).utxo = some u from hu] at hv
      cases hv
      rw [hub] at hvb
      cases hvb
      rfl
  have hkept := (hrun.toLedger (Run.wellKeyed (h.trans hcall))).2.invariant
    (I := fun l => Ledger.SpendingBy id (l.cell o))
    (fun _ _ hl hm => hl.move (fun l u hu => (newRules_puts l u hu).1) hm) hadvanced
  exact ⟨.of_spendingBy hkept, fun hs s'' hrun' => hs.run (Run.wellKeyed hall) hrun',
    fun hplans v hv hs => Run.spent_free hall hplans hv hs⟩

theorem no_reuse_after_broadcast_sample :
    (Program.after exec [.applyReconciliation ⟨[.updateAvailability Sample.outpoint .selectable]⟩]
      (Sample.state.completeOperation Sample.operationId .broadcast).2).KeptBy
        Sample.operationId Sample.outpoint := by
  have hop : ∃ op, Sample.state.getOperation Sample.operationId = some op ∧
      op.phase ≠ .broadcast := ⟨_, rfl, by decide⟩
  have hu : ∃ u, Sample.state.getUtxo Sample.outpoint = some u ∧
      u.boundTo Sample.operationId = true := ⟨_, rfl, by decide⟩
  obtain ⟨op, hop, hne⟩ := hop
  obtain ⟨u, hu, hb⟩ := hu
  exact (no_reuse_after_broadcast Sample.run hop hne (.inl rfl) hu hb rfl
    (Program.steps_after (by decide))).1

/-- A crafted plan may claim the spend of an output that is bound. -/
theorem spent_while_owned : ∃ s outs u, Run freeRules empty s ∧
    (s.completeOperation Sample.operationId .broadcast).1 = .ok outs ∧
    Sample.outpoint ∈ outs ∧
    (s.completeOperation Sample.operationId .broadcast).2.getUtxo Sample.outpoint = some u ∧
    u.onchainState = .spent ∧ u.operationBinding.isSome = true ∧
    ((s.completeOperation Sample.operationId .broadcast).2.getLock Sample.outpoint).isSome =
      true := by
  have hrun : Run freeRules empty (Program.after exec (Sample.calls ++
      [.applyReconciliation ⟨[.updateOnchainState Sample.outpoint .spent]⟩]) empty) :=
    Program.steps_after (by decide)
  exact ⟨_, _, _, hrun, rfl, by decide, rfl, by decide, by decide, by decide⟩

/-! ## One-way lifecycles -/

/-- Only the outputs of `puts` are put in, and any plan may be applied. -/
def putRules (puts : ManagedUtxo → Prop) : Ledger.Rules := ⟨fun _ => puts, fun _ _ => True⟩

/-- The operation has neither the lock nor the binding of the output. -/
def FreeOf (s : InMemoryStateStore) (id : OperationId) (o : OutPoint) : Prop :=
  (∀ k, s.getLock o = some k → k.operationId ≠ id) ∧
    ∀ u b, s.getUtxo o = some u → u.operationBinding = some b → b.operationId ≠ id

/-- Whatever any number of clients do: phases and statuses only move forward, an operation past
`Selected` has a committed intent, and, as long as no output is put in bound, an operation whose
intent has failed owns nothing from then on. -/
theorem lifecycle_one_way {puts : ManagedUtxo → Prop}
    {x y : InMemoryStateStore × List (Client Unit)} (h : ClientRun (putRules puts) (empty, []) x)
    (h' : ClientRun (putRules puts) x y) :
    (∀ id op, x.1.getOperation id = some op →
      ∃ op', y.1.getOperation id = some op' ∧ op.phase.MovesTo op'.phase) ∧
    (∀ id i, x.1.getIntent id = some i →
      ∃ i', y.1.getIntent id = some i' ∧ i.status.MovesTo i'.status) ∧
    (∀ id op, y.1.getOperation id = some op → op.phase ≠ .selected → op.phase ≠ .rollingBack →
      ∃ i, y.1.getIntent id = some i ∧ i.status = .committed) ∧
    ((∀ u, puts u → u.operationBinding = none) →
      ∀ id i, x.1.getIntent id = some i → i.status = .failed → ∀ o, y.1.FreeOf id o) := by
  obtain ⟨hx, hxy⟩ := clients_run_empty (fun _ _ => trivial) h h'
  have hledger : Ledger.Run (putRules puts) x.1.toLedger y.1.toLedger :=
    (hxy.toLedger hx.wellKeyed).2
  have hy : Run (putRules puts) empty y.1 := hx.trans hxy
  have hcommitted : y.1.toLedger.AdvancedCommitted :=
    hy.invariant .empty fun _ _ hl hm => hl.move hm
  refine ⟨fun id op hop => hledger.operation_forward hop, fun id i hi => ?_,
    hcommitted, fun hputs id i hi hfailed o => ?_⟩
  · obtain ⟨i', hi', -, hmoves⟩ := hledger.intent_forward hi
    exact ⟨i', hi', hmoves⟩
  · -- the intent is still failed, so the operation is not live
    obtain ⟨i', hi', -, hmoves⟩ := hledger.intent_forward hi
    have hfailed' : i'.status = .failed := by
      rw [hfailed] at hmoves
      rcases hmoves with hmoves | ⟨hpending, -⟩
      · exact hmoves
      · cases hpending
    have hlive : y.1.toLedger.OwnersLive := hy.invariant .empty fun _ _ hl hm =>
      hl.move (fun _ u hu => hputs u hu) hm
    have hnot : ∀ id', (y.1.toLedger.cell o).Owner id' → id' ≠ id := by
      rintro id' hown rfl
      obtain ⟨j, hj, hstatus⟩ := (hlive o id' hown).intent
      rw [hi'] at hj
      cases hj
      exact hstatus hfailed'
    exact ⟨fun k hk => hnot _ (.inl ⟨k, hk, rfl⟩), fun u b hu hb =>
      hnot _ (.inr ⟨b, Cell.binding_eq_some_iff.mpr ⟨u, hu, hb⟩, rfl⟩)⟩

namespace Sample

/-- An intent that fails before anything is reserved. -/
def failure : List Orchestrator.Method :=
  [.addAccount ⟨accountId, "account", [], capabilities⟩, .persistSelectionIntent selection,
    .failRecordedIntent operationId]

/-- An output that is put in as bound to an operation already. -/
def boundUtxo : ManagedUtxo :=
  (ManagedUtxo.new outpoint accountId scopeId 1000).reserve operationId .selected

end Sample

theorem lifecycle_one_way_sample :
    (afterMethods "owner" [.addUtxo (.new Sample.outpoint Sample.accountId Sample.scopeId 1)]
      (afterMethods "owner" Sample.failure empty)).FreeOf Sample.operationId Sample.outpoint := by
  have h : ClientRun (putRules (·.operationBinding = none)) (empty, [])
      (afterMethods "owner" Sample.failure empty, []) :=
    clientRun_afterMethods "owner" (fun u hu => by simp [Sample.failure] at hu) _
  have h' : ClientRun (putRules (·.operationBinding = none))
      (afterMethods "owner" Sample.failure empty, [])
      (afterMethods "owner" [.addUtxo (.new Sample.outpoint Sample.accountId Sample.scopeId 1)]
        (afterMethods "owner" Sample.failure empty), []) :=
    clientRun_afterMethods "owner" (fun u hu _ => by simp at hu; rw [hu]; rfl) _
  have hi : ∃ i, (afterMethods "owner" Sample.failure empty).getIntent Sample.operationId =
      some i ∧ i.status = .failed := ⟨_, rfl, by decide⟩
  obtain ⟨i, hi, hfailed⟩ := hi
  exact (lifecycle_one_way h h').2.2.2 (fun _ hu => hu) _ i hi hfailed _

/-- An output may be put in as bound to an operation whose intent has failed. -/
theorem failed_owner : ∃ s s' i u b, ClientRun (putRules fun _ => True) (empty, []) (s, []) ∧
    s.getIntent Sample.operationId = some i ∧ i.status = .failed ∧
    ClientRun (putRules fun _ => True) (s, []) (s', []) ∧
    s'.getUtxo Sample.outpoint = some u ∧ u.operationBinding = some b ∧
    b.operationId = Sample.operationId := by
  have h : ClientRun (putRules fun _ => True) (empty, [])
      (afterMethods "owner" Sample.failure empty, []) :=
    clientRun_afterMethods "owner" (fun _ _ _ => trivial) _
  have h' : ClientRun (putRules fun _ => True) (afterMethods "owner" Sample.failure empty, [])
      (afterMethods "owner" [.addUtxo Sample.boundUtxo]
        (afterMethods "owner" Sample.failure empty), []) :=
    clientRun_afterMethods "owner" (fun _ _ _ => trivial) _
  exact ⟨_, _, _, _, _, h, rfl, by decide, h', rfl, rfl, by decide⟩

end InMemoryStateStore

end Txoscope
