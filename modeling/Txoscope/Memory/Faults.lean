import Txoscope.Lib.Faults
import Txoscope.Memory.Reconciling
import Txoscope.Memory.Recovery

/-!
# Committing over a store that faults

Any call of the store may return `Err(Storage)` and do nothing. `commit_recorded_intent` escalates
such a fault at once, so it is cut short either before it wrote anything or between its batch and the
mark on the intent. A batch that has been applied is admitted again and changes nothing but ticks
(`Applied.again`), so repeating the call until it meets no fault ends like one call without faults.
-/

namespace Txoscope

/-- An error of the backend. -/
def DomainError.IsStorage (e : DomainError) : Prop := ∃ reason, e = .storage reason

/-! ## Faults are escalated -/

/-- Clients that hand an error of the backend to their caller. -/
abbrev EscalatesStorage {α : Type} (p : Client α) : Prop := p.Escalates DomainError.IsStorage

namespace OperationSelection

theorem validateScope_escalates (accountId : AccountId) (scopeId : WalletScopeId)
    (required : CapabilitySet) :
    EscalatesStorage (validateScope (m := Client) (fun id => (StoreCall.getAccount id).invoke)
      (fun id => (StoreCall.getScope id).invoke) accountId scopeId required) := by
  unfold validateScope
  refine .bind (.invoke _) fun account => ?_
  cases account with
  | none => exact .throw _
  | some account =>
    dsimp only
    split_ifs
    · exact .throw _
    · refine .bind (.invoke _) fun scope => ?_
      cases scope with
      | none => exact .throw _
      | some scope =>
        dsimp only
        split_ifs
        · exact .throw _
        · exact .throw _
        · exact .pure _

theorem validateEffects_escalates (effects : List SelectionEffect)
    (changeRequired : CapabilitySet) :
    EscalatesStorage (validateEffects (m := Client) (fun id => (StoreCall.getAccount id).invoke)
      (fun id => (StoreCall.getScope id).invoke) (fun o => (StoreCall.getUtxo o).invoke) effects
        changeRequired) := by
  induction effects generalizing changeRequired with
  | nil => exact .pure _
  | cons effect effects ih =>
    unfold validateEffects
    refine .bind (.invoke _) fun utxo => ?_
    cases utxo with
    | none => exact .throw _
    | some utxo => exact .bind (validateScope_escalates _ _ _) fun _ => ih _

theorem validateCapabilities_escalates (selection : OperationSelection) :
    EscalatesStorage (selection.validateCapabilities (m := Client)
      (fun id => (StoreCall.getAccount id).invoke) (fun id => (StoreCall.getScope id).invoke)
      (fun o => (StoreCall.getUtxo o).invoke)) := by
  unfold validateCapabilities
  cases selection.validateStructure with
  | error e => exact .throw _
  | ok u =>
    refine .bind (validateEffects_escalates _ _) fun change => ?_
    refine .bind (.invoke _) fun scope => ?_
    cases scope with
    | none => exact .throw _
    | some scope => exact validateScope_escalates _ _ _

end OperationSelection

namespace Orchestrator

theorem validateEffect_escalates (id : OperationId) (effect : SelectionEffect) :
    EscalatesStorage (validateEffect id effect) := by
  unfold validateEffect
  refine .bind (.invoke _) fun utxo => ?_
  cases utxo with
  | none => exact .throw _
  | some utxo =>
    refine .bind (.invoke _) fun lock => ?_
    split_ifs
    · exact .pure _
    · exact .pure _
    · exact .throw _

theorem commitSelection_escalates (owner : String) (selection : OperationSelection) :
    EscalatesStorage (commitSelection owner selection) := by
  unfold commitSelection
  refine .bind (.invoke _) fun operation => .bind ?_ fun _ => .bind ?_ fun _ => .invoke _
  · unfold requireSelected
    cases operation with
    | none => exact .pure _
    | some operation =>
      dsimp only
      split_ifs
      · exact .throw _
      · exact .pure _
  · exact .bind selection.validateCapabilities_escalates fun _ =>
      .forEach (validateEffect_escalates _) _

theorem isPendingLockConflict_escalates (id : OperationId) (e : DomainError) :
    EscalatesStorage (isPendingLockConflict id e) := by
  unfold isPendingLockConflict
  cases contendedOutpoint e with
  | none => exact .pure _
  | some outpoint =>
    refine .bind (.invoke _) fun lock => ?_
    cases lock with
    | none => exact .pure _
    | some lock =>
      dsimp only
      split_ifs
      · exact .pure _
      · exact .bind (.invoke _) fun _ => .pure _

theorem commitRecordedIntent_escalates (owner : String) (id : OperationId) :
    EscalatesStorage (commitRecordedIntent owner id) := by
  unfold commitRecordedIntent
  refine .bind (.invoke _) fun intent => ?_
  cases intent with
  | none => exact .throw _
  | some intent =>
    dsimp only
    cases intent.status with
    | committed => exact .pure _
    | failed => exact .throw _
    | pending =>
      refine .attempt_bind (commitSelection_escalates owner _) (fun r => ?_) ?_
      · split
        · exact .invoke _
        · exact .throw _
        · refine .bind (isPendingLockConflict_escalates id _) fun conflict => ?_
          split_ifs
          · exact .throw _
          · exact .bind (.invoke _) fun _ => .throw _
      · rintro e ⟨reason, rfl⟩
        rfl

end Orchestrator

/-! ## Batches applied again -/

namespace Ledger

/-- `l'` is `l` with the batch applied, at whatever tick. -/
structure Applied (l : Ledger) (batch : StateBatch) (l' : Ledger) : Prop where
  account : l'.account = l.account
  scope : l'.scope = l.scope
  intent : l'.intent = l.intent
  cell : l'.cell = l.holdCells batch
  operation : ∃ tick, l'.operation = Function.update l.operation batch.selection.operationId
    (some ⟨batch.selection.operationId, batch.phase, tick, batch.selection.expiresAt⟩)

variable {l l' : Ledger} {batch : StateBatch}

/-- The cells a batch held are holdable for it, and stay as they are. -/
theorem holdable_holdCells (h : l.Admits batch) {e : SelectionEffect}
    (he : e ∈ batch.selection.effects) :
    (l.holdCells batch e.outpoint).Holdable batch e.purpose := by
  rcases l.holdCells_cases batch e.outpoint with ⟨e', he', heq, hcell⟩ | ⟨hnone, -⟩
  · have hsame : e' = e :=
      List.inj_on_of_nodup_map h.authorised.wellFormed.effects_nodup he' he heq
    subst e'
    rw [hcell]
    cases h.holdable e he with
    | free u utxo spendable lock =>
      rw [Cell.hold_of_free utxo spendable]
      refine .held _ _ rfl rfl rfl rfl ?_
      simp [lockDiffers, newLock, ManagedUtxo.reserve]
    | held u k utxo binding lock owner same =>
      rw [Cell.hold_of_held utxo binding lock owner]
      exact .held u k utxo binding lock owner same
  · exact (hnone e he rfl).elim

variable (batch) in
/-- A batch keeps the account and scope of every output. -/
theorem utxo_holdCells {o : OutPoint} {u : ManagedUtxo} (hu : (l.cell o).utxo = some u) :
    ∃ v, (l.holdCells batch o).utxo = some v ∧ v.accountId = u.accountId ∧
      v.scopeId = u.scopeId := by
  rcases l.holdCells_cases batch o with ⟨e, -, -, hcell⟩ | ⟨-, hcell⟩
  · rw [hcell]
    unfold Cell.hold
    rw [hu]
    dsimp only
    split_ifs
    · exact ⟨u, hu, rfl, rfl⟩
    · exact ⟨_, rfl, rfl, rfl⟩
  · exact ⟨u, hcell ▸ hu, rfl, rfl⟩

theorem Applied.admits (h : l.Applied batch l') (ha : l.Admits batch)
    (hphase : batch.phase ≠ .rollingBack) : l'.Admits batch where
  intent i hi := ha.intent i (h.intent ▸ hi)
  operation op hop := by
    obtain ⟨tick, hoperation⟩ := h.operation
    rw [hoperation, Function.update_self] at hop
    cases hop
    exact ⟨rfl, hphase⟩
  authorised := by
    refine ⟨ha.authorised.wellFormed, fun e he => ?_, ?_⟩
    · obtain ⟨u, hu, hgrants⟩ := ha.authorised.effects e he
      obtain ⟨v, hv, haccount, hscope⟩ := utxo_holdCells batch hu
      refine ⟨v, ?_, ?_⟩
      · unfold Ledger.utxo
        rw [h.cell]
        exact hv
      · rw [haccount, hscope, h.account, h.scope]
        exact hgrants
    · rw [h.account, h.scope]
      exact ha.authorised.change
  holdable e he := by
    rw [h.cell]
    exact holdable_holdCells ha he

/-- Applying the batch again holds what is held already. -/
theorem Applied.holdCells_eq (h : l.Applied batch l') (ha : l.Admits batch) :
    l'.holdCells batch = l.holdCells batch := by
  funext o
  rw [← h.cell]
  rcases l'.holdCells_cases batch o with ⟨e, he, rfl, hcell⟩ | ⟨-, hcell⟩
  · rw [hcell, h.cell]
    cases holdable_holdCells ha he with
    | free u utxo spendable lock =>
      rcases l.holdCells_cases batch e.outpoint with ⟨e', he', heq, hheld⟩ | ⟨hnone, -⟩
      · obtain ⟨k, hk, -⟩ := (Cell.heldBy_hold l.tick (heq ▸ ha.holdable e' he')).lock
        rw [hheld, hk] at lock
        cases lock
      · exact (hnone e he rfl).elim
    | held u k utxo binding lock owner => exact Cell.hold_of_held utxo binding lock owner
  · exact hcell

/-- A lock that was there is there after the batch. -/
theorem lock_holdCells (ha : l.Admits batch) {o : OutPoint} {k : OperationLock}
    (hk : (l.cell o).lock = some k) : (l.holdCells batch o).lock = some k := by
  rcases l.holdCells_cases batch o with ⟨e, he, rfl, hcell⟩ | ⟨-, hcell⟩
  · rw [hcell]
    cases ha.holdable e he with
    | free u utxo spendable lock =>
      rw [hk] at lock
      cases lock
    | held u k' utxo binding lock owner => rwa [Cell.hold_of_held utxo binding lock owner]
  · rw [hcell]
    exact hk

end Ledger

namespace InMemoryStateStore

variable {s s' : InMemoryStateStore} {owner : String} {selection : OperationSelection}
  {id : OperationId} {i : OperationIntent}

/-- A batch that is admitted where it may have been applied is applied. -/
theorem applied_applyBatch {l : Ledger} (ha : l.Admits ⟨selection, .selected, owner⟩)
    (h : s.toLedger = l ∨ l.Applied ⟨selection, .selected, owner⟩ s.toLedger) :
    s.toLedger.Admits ⟨selection, .selected, owner⟩ ∧
      l.Applied ⟨selection, .selected, owner⟩
        (s.applyBatch ⟨selection, .selected, owner⟩).2.toLedger := by
  rcases h with rfl | h
  · refine ⟨ha, ?_⟩
    rw [(toLedger_applyBatch_of_admits ha).2]
    exact ⟨rfl, rfl, rfl, rfl, _, rfl⟩
  · have hagain := h.admits ha (show OperationPhase.selected ≠ .rollingBack by decide)
    refine ⟨hagain, ?_⟩
    rw [(toLedger_applyBatch_of_admits hagain).2]
    refine ⟨h.account, h.scope, h.intent, h.holdCells_eq ha, saturatingAdd s.tick 1, ?_⟩
    obtain ⟨tick, hoperation⟩ := h.operation
    change Function.update s.toLedger.operation _ _ = _
    rw [hoperation, Function.update_idem]
    rfl

/-! ## Where a commit is cut short -/

theorem before_commitSelection
    (h : Program.Before exec (Orchestrator.commitSelection owner selection) s s') : s' = s := by
  have hreads : OnlyReads (do
      let operation ← (StoreCall.getOperation selection.operationId).invoke
      Orchestrator.requireSelected selection.operationId operation
      Orchestrator.validateSelection selection) :=
    .bind (.invoke trivial) fun _ => .bind (Orchestrator.requireSelected_onlyReads _ _) fun _ =>
      Orchestrator.validateSelection_onlyReads _
  have heq : Orchestrator.commitSelection owner selection = (do
      let operation ← (StoreCall.getOperation selection.operationId).invoke
      Orchestrator.requireSelected selection.operationId operation
      Orchestrator.validateSelection selection) >>= fun _ =>
        (StoreCall.applyBatch ⟨selection, .selected, owner⟩).invoke := by
    simp only [Orchestrator.commitSelection, bind_assoc]
  rw [heq] at h
  rcases h.bind with h | ⟨u, s₁, hrun, h⟩
  · exact h.of_reads reads_snd hreads
  · have hs : s₁ = s := (congrArg Prod.snd hrun).symm.trans (hreads.run_snd reads_snd s)
    exact h.invoke.trans hs

/-- A commit of a pending intent has written nothing, or just its batch. -/
theorem before_commitRecordedIntent (hi : s.getIntent id = some i) (hp : i.status = .pending)
    (h : Program.Before exec (Orchestrator.commitRecordedIntent owner id) s s') :
    s' = s ∨ (s.toLedger.Admits ⟨i.selection, .selected, owner⟩ ∧
      s' = (s.applyBatch ⟨i.selection, .selected, owner⟩).2) := by
  unfold Orchestrator.commitRecordedIntent at h
  rcases h.bind with h | ⟨intent, s₁, hrun, h⟩
  · exact .inl h.invoke
  · have hread : Program.run exec (StoreCall.getIntent id).invoke s = (.ok (some i), s) :=
      congrArg (fun r => (Except.ok r, s)) hi
    rw [hread] at hrun
    cases hrun
    dsimp only at h
    rw [hp] at h
    dsimp only at h
    rcases h.bind with h | ⟨r, s₂, hrun, hrest⟩
    · exact .inl (before_commitSelection h.of_attempt)
    · rw [Program.run_attempt] at hrun
      obtain ⟨hr, hs₂⟩ := Prod.mk.inj hrun
      cases r with
      | ok u =>
        have hok : Program.run exec (Orchestrator.commitSelection owner i.selection) s =
            (.ok (), s₂) := Prod.ext (Except.ok.inj hr) hs₂
        obtain ⟨ha, rfl⟩ := commitSelection_ok hok
        exact .inr ⟨ha, hrest.invoke⟩
      | error e =>
        have herror : Program.run exec (Orchestrator.commitSelection owner i.selection) s =
            (.error e, s₂) := Prod.ext (Except.ok.inj hr) hs₂
        obtain ⟨rfl, -⟩ := commitSelection_error herror
        refine .inl ?_
        split at hrest
        · cases ‹Except.error e = Except.ok ()›
        · exact (Program.not_before_done hrest).elim
        · rename_i err _ heq
          have hconflict := Orchestrator.isPendingLockConflict_onlyReads id err
          rcases hrest.bind with hread | ⟨conflict, s₃, hrun', hmark⟩
          · exact hread.of_reads reads_snd hconflict
          · have hs : s₃ = s₂ :=
              (congrArg Prod.snd hrun').symm.trans (hconflict.run_snd (fun c s => reads_snd c s) s₂)
            subst s₃
            split_ifs at hmark
            · exact (Program.not_before_done hmark).elim
            · rcases hmark.bind with hcall | ⟨u, s₄, -, hthrow⟩
              · exact hcall.invoke
              · exact (Program.not_before_done hthrow).elim

/-! ## Storage errors are faults -/

theorem markIntentFailed_ne_storage (s : InMemoryStateStore) (id : OperationId) (reason : String) :
    (s.markIntentFailed id).1 ≠ .error (.storage reason) := by
  unfold markIntentFailed
  cases s.getIntent id with
  | none => exact fun h => (by cases h)
  | some intent =>
    dsimp only
    cases hstatus : intent.status with
    | committed => exact fun h => (by cases h)
    | failed => exact fun h => (by cases h)
    | pending =>
      dsimp only
      cases s.getOperation id with
      | none => exact fun h => (by cases h)
      | some operation =>
        dsimp only
        cases hphase : operation.phase <;> exact fun h => (by cases h)

/-- A store that works returns no error of the backend. -/
theorem commitRecordedIntent_ne_storage (hi : s.getIntent id = some i) (hp : i.status = .pending)
    (owner reason : String) :
    (Program.run exec (Orchestrator.commitRecordedIntent owner id) s).1 ≠
      .error (.storage reason) := by
  have hread : Program.run exec (StoreCall.getIntent id).invoke s = (.ok (some i), s) :=
    congrArg (fun r => (Except.ok r, s)) hi
  obtain ⟨⟨result, s₁⟩, hrun⟩ : ∃ x, Program.run exec
      (Orchestrator.commitSelection owner i.selection) s = x := ⟨_, rfl⟩
  cases result with
  | ok u =>
    rw [(commitRecordedIntent_pending owner hi hp).1 s₁ hrun]
    obtain ⟨ha, rfl⟩ := commitSelection_ok hrun
    have hi₁ : (s.applyBatch ⟨i.selection, .selected, owner⟩).2.getIntent id = some i :=
      (congrFun (congrArg Ledger.intent (toLedger_applyBatch_of_admits ha).2) _).trans hi
    obtain ⟨s₂, hmark, -⟩ := exec_markIntentCommitted hi₁ hp
    rw [hmark]
    simp
  | error e =>
    have hstorage := (commitSelection_error hrun).2.storage
    have hattempt := Program.run_attempt exec (Orchestrator.commitSelection owner i.selection) s
    rw [hrun] at hattempt
    unfold Orchestrator.commitRecordedIntent
    rw [Program.run_bind_ok _ hread]
    dsimp only
    rw [hp]
    dsimp only
    rw [Program.run_bind_ok _ hattempt]
    split
    · cases ‹Except.error e = Except.ok ()›
    · rename_i reason' heq
      cases heq
      exact (hstorage reason' rfl).elim
    · rename_i err _ heq
      cases heq
      have hthrow : (Except.error e : DomainResult Unit) ≠ .error (.storage reason) := fun h =>
        hstorage reason (Except.error.inj h)
      rw [Program.run_bind_ok _ (run_isPendingLockConflict id e)]
      split_ifs
      · exact hthrow
      · rw [Program.run_bind]
        split
        · exact hthrow
        · rename_i e' s' hfailed
          have hresult : (s₁.markIntentFailed id).1 = .error e' := congrArg Prod.fst hfailed
          rw [← hresult]
          exact s₁.markIntentFailed_ne_storage id reason

/-! ## Repeating a commit -/

/-- The same outputs, locks, operations and intents, up to the ticks of operations. -/
structure SameButTicks (s s' : InMemoryStateStore) : Prop where
  utxo : ∀ o, s'.getUtxo o = s.getUtxo o
  lock : ∀ o, s'.getLock o = s.getLock o
  operation : ∀ id, (s'.getOperation id).map (fun op => { op with updatedAt := 0 }) =
    (s.getOperation id).map fun op => { op with updatedAt := 0 }
  intent : ∀ id, s'.getIntent id = s.getIntent id

theorem SameButTicks.refl (s : InMemoryStateStore) : SameButTicks s s :=
  ⟨fun _ => rfl, fun _ => rfl, fun _ => rfl, fun _ => rfl⟩

/-- Where a commit of `i` that is cut short may leave the store. -/
def MidCommit (s : InMemoryStateStore) (owner : String) (i : OperationIntent)
    (s' : InMemoryStateStore) : Prop :=
  s' = s ∨ (s.toLedger.Admits ⟨i.selection, .selected, owner⟩ ∧
    s.toLedger.Applied ⟨i.selection, .selected, owner⟩ s'.toLedger)

theorem MidCommit.getIntent (h : s.MidCommit owner i s') : s'.getIntent id = s.getIntent id := by
  rcases h with rfl | ⟨-, happlied⟩
  · rfl
  · exact congrFun happlied.intent id

theorem MidCommit.getLock (h : s.MidCommit owner i s') {o : OutPoint} {k : OperationLock}
    (hk : s.getLock o = some k) : s'.getLock o = some k := by
  rcases h with rfl | ⟨ha, happlied⟩
  · exact hk
  · have hcell : s'.cell o = s.toLedger.holdCells _ o := congrFun happlied.cell o
    exact (congrArg Cell.lock hcell).trans (Ledger.lock_holdCells ha hk)

theorem MidCommit.before (hi : s.getIntent id = some i) (hp : i.status = .pending)
    {s₁ s₂ : InMemoryStateStore} (h : s.MidCommit owner i s₁)
    (hbefore : Program.Before exec (Orchestrator.commitRecordedIntent owner id) s₁ s₂) :
    s.MidCommit owner i s₂ := by
  rcases before_commitRecordedIntent (h.getIntent.trans hi) hp hbefore with rfl | ⟨ha₁, rfl⟩
  · exact h
  · rcases h with rfl | ⟨ha, happlied⟩
    · exact .inr ⟨ha₁, (applied_applyBatch ha₁ (.inl rfl)).2⟩
    · exact .inr ⟨ha, (applied_applyBatch ha (.inr happlied)).2⟩

/-- A commit that starts where another one was cut short ends like a single one. -/
theorem MidCommit.commit (hi : s.getIntent id = some i) (hp : i.status = .pending)
    (h : s.MidCommit owner i s') :
    (Program.run exec (Orchestrator.commitRecordedIntent owner id) s').1 =
        (Program.run exec (Orchestrator.commitRecordedIntent owner id) s).1 ∧
      SameButTicks (Program.run exec (Orchestrator.commitRecordedIntent owner id) s).2
        (Program.run exec (Orchestrator.commitRecordedIntent owner id) s').2 := by
  have hi' : s'.getIntent id = some i := h.getIntent.trans hi
  rcases h with rfl | ⟨ha, happlied⟩
  · exact ⟨rfl, .refl _⟩
  · -- both runs apply the batch and mark the intent
    have hrun : ∀ {t : InMemoryStateStore}, t.getIntent id = some i →
        (t.toLedger = s.toLedger ∨ s.toLedger.Applied ⟨i.selection, .selected, owner⟩ t.toLedger) →
        ∃ t', Program.run exec (Orchestrator.commitRecordedIntent owner id) t = (.ok (), t') ∧
          ∃ l, s.toLedger.Applied ⟨i.selection, .selected, owner⟩ l ∧
            t'.toLedger = l.setStatus id i .committed := by
      intro t ht happ
      obtain ⟨hadmits, happlied⟩ := applied_applyBatch ha happ
      have hi₁ : (t.applyBatch ⟨i.selection, .selected, owner⟩).2.getIntent id = some i :=
        (congrFun happlied.intent id).trans hi
      obtain ⟨t', hmark, hledger⟩ := exec_markIntentCommitted hi₁ hp
      refine ⟨t', ?_, _, happlied, hledger⟩
      rw [(commitRecordedIntent_pending owner ht hp).1 _ (commitSelection_of_admits hadmits)]
      exact hmark
    obtain ⟨t, hok, l, hl, ht⟩ := hrun hi (.inl rfl)
    obtain ⟨t', hok', l', hl', ht'⟩ := hrun hi' (.inr happlied)
    rw [hok, hok']
    have hcell : ∀ o, t'.cell o = t.cell o := by
      intro o
      have h₁ : t.cell o = l.cell o := congrFun (congrArg Ledger.cell ht) o
      have h₂ : t'.cell o = l'.cell o := congrFun (congrArg Ledger.cell ht') o
      rw [h₁, h₂, hl.cell, hl'.cell]
    refine ⟨rfl, fun o => congrArg Cell.utxo (hcell o), fun o => congrArg Cell.lock (hcell o),
      fun id' => ?_, fun id' => ?_⟩
    · have h₁ : t.getOperation id' = l.operation id' := congrFun (congrArg Ledger.operation ht) id'
      have h₂ : t'.getOperation id' = l'.operation id' :=
        congrFun (congrArg Ledger.operation ht') id'
      obtain ⟨tick, hoperation⟩ := hl.operation
      obtain ⟨tick', hoperation'⟩ := hl'.operation
      rw [h₁, h₂, hoperation, hoperation', Function.update_apply, Function.update_apply]
      split_ifs <;> rfl
    · have h₁ : t.getIntent id' = Function.update l.intent id (some { i with status := .committed })
          id' := congrFun (congrArg Ledger.intent ht) id'
      have h₂ : t'.getIntent id' =
          Function.update l'.intent id (some { i with status := .committed }) id' :=
        congrFun (congrArg Ledger.intent ht') id'
      rw [h₁, h₂, hl.intent, hl'.intent]

/-- The backend faults by the texts of its errors. -/
def storageFaults (faults : List (Option String)) : List (Option DomainError) :=
  faults.map (Option.map .storage)

theorem isStorage_of_mem {faults : List (Option String)} {e : DomainError}
    (h : some e ∈ storageFaults faults) : e.IsStorage := by
  obtain ⟨fault, -, hfault⟩ := List.mem_map.mp h
  obtain ⟨reason, -, rfl⟩ := Option.map_eq_some_iff.mp hfault
  exact ⟨reason, rfl⟩

/-- Faults of the backend only delay a commit. A call of `commit_recorded_intent` for a pending
intent that returns an error of the backend leaves the intent pending and every lock where it was,
and the call, repeated until it meets no fault, ends as a single call without faults ends. -/
theorem commit_despite_faults (hs : Reachable s) (hi : s.getIntent id = some i)
    (hp : i.status = .pending) (owner : String) (faults : List (Option String)) :
    (∀ reason s' rest,
      Program.run (Program.faulting exec) (Orchestrator.commitRecordedIntent owner id)
          (s, storageFaults faults) = (.error (.storage reason), (s', rest)) →
        Reachable s' ∧ s'.getIntent id = some i ∧
          ∀ o k, s.getLock o = some k → s'.getLock o = some k) ∧
    (∃ y, Program.UntilClean exec (Orchestrator.commitRecordedIntent owner id)
      (s, storageFaults faults) y) ∧
    ∀ result s' rest, Program.UntilClean exec (Orchestrator.commitRecordedIntent owner id)
        (s, storageFaults faults) (result, (s', rest)) →
      result = (Program.run exec (Orchestrator.commitRecordedIntent owner id) s).1 ∧
        SameButTicks (Program.run exec (Orchestrator.commitRecordedIntent owner id) s).2 s' := by
  have hescalates := Orchestrator.commitRecordedIntent_escalates owner id
  have hfaults : ∀ e, some e ∈ storageFaults faults → e.IsStorage := fun _ => isStorage_of_mem
  refine ⟨?_, Program.exists_untilClean hescalates s hfaults, ?_⟩
  · intro reason s' rest hrun
    have houtcome := Program.run_faulting exec hescalates s hfaults
    rw [hrun] at houtcome
    rcases houtcome with ⟨-, hresult, -⟩ | ⟨-, -, hbefore⟩
    · exact (commitRecordedIntent_ne_storage hi hp owner reason hresult.symm).elim
    · have hmid : s.MidCommit owner i s' := MidCommit.before hi hp (.inl rfl) hbefore
      exact ⟨hs.trans hbefore.steps, hmid.getIntent.trans hi, fun o k => hmid.getLock⟩
  · intro result s' rest h
    obtain ⟨s₁, hmid, hresult, hstate⟩ := h.of_invariant (I := s.MidCommit owner i) hescalates
      (fun _ _ hmid hbefore => hmid.before hi hp hbefore) hfaults (.inl rfl)
    obtain ⟨hsame, hticks⟩ := hmid.commit hi hp
    exact ⟨hresult.trans hsame, by
      rw [show s' = _ from hstate]
      exact hticks⟩

namespace Sample

/-- One account with one scope and one output, and a pending intent for it. -/
def recorded : InMemoryStateStore := Program.after exec (calls.take 4) empty

theorem recorded_run : Run freeRules empty recorded := Program.steps_after (by decide)

end Sample

theorem commit_despite_faults_sample :
    ∃ y, Program.UntilClean exec (Orchestrator.commitRecordedIntent "owner" Sample.operationId)
      (Sample.recorded, storageFaults [none, some "read", none, none, some "write"]) y ∧
        y.1 = .ok () := by
  obtain ⟨i, hi, hp⟩ : ∃ i, Sample.recorded.getIntent Sample.operationId = some i ∧
      i.status = .pending := ⟨_, rfl, rfl⟩
  obtain ⟨-, ⟨y, hy⟩, hend⟩ := commit_despite_faults Sample.recorded_run.reachable hi hp "owner"
    [none, some "read", none, none, some "write"]
  exact ⟨y, hy, (hend y.1 y.2.1 y.2.2 hy).1.trans rfl⟩

end InMemoryStateStore

end Txoscope
