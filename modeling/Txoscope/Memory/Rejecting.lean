import Txoscope.Memory.Recovery

/-!
# Why recovery rejects an intent

A commit that is refused for another reason than contention is refused on the merits of the
selection: it is not valid, or it wants an input that cannot be spent or belongs to a committed
operation (`unfit_of_refused`). Whatever recovery does afterwards leaves that reason standing
(`Unfit.keeps`), so the intents it rejects could not be committed in the end either
(`recovery_rejects_unfit`).
-/

namespace Txoscope

/-! ## Cells -/

namespace Cell

variable {c c' : Cell}

/-- The output cannot be spent, and not just because it is reserved. -/
structure Unspendable (c : Cell) (u : ManagedUtxo) : Prop where
  managed : c.utxo = some u
  unspendable : u.isPolicySpendable = false
  free : c.lock = none ∨ u.observationConflict ≠ none

/-- What is said about the identity of an output and about its use stays true. -/
structure Keeps (c c' : Cell) : Prop where
  scope : c'.utxo.map (fun u => (u.accountId, u.scopeId)) =
    c.utxo.map fun u => (u.accountId, u.scopeId)
  unspendable : ∀ u, c.Unspendable u → ∃ u', c'.Unspendable u'

theorem Keeps.refl (c : Cell) : c.Keeps c := ⟨rfl, fun u hu => ⟨u, hu⟩⟩

/-- A batch reserves only what can be spent. -/
theorem Holdable.keeps {batch : StateBatch} {purpose : LockPurpose} (hc : c.Holdable batch purpose)
    (tick : ℕ) : c.Keeps (c.hold batch tick purpose) := by
  cases hc with
  | free u utxo spendable lock =>
    rw [hold_of_free utxo spendable]
    refine ⟨by rw [utxo]; rfl, fun v hv => ?_⟩
    obtain rfl : u = v := Option.some.inj (utxo.symm.trans hv.managed)
    rw [hv.unspendable] at spendable
    cases spendable
  | held u k utxo binding lock owner =>
    rw [hold_of_held utxo binding lock owner]
    exact .refl c

/-- A release frees an output that is reserved, and clears no conflict. -/
theorem Agrees.keeps_release (h : c.Agrees) (id : OperationId) : c.Keeps (c.release id) := by
  refine ⟨?_, fun u hu => ?_⟩
  · change (c.utxo.map (·.releaseIfBound id)).map _ = _
    rw [Option.map_map]
    exact Option.map_congr fun u _ => by simp
  · have hutxo : (c.release id).utxo = some (u.releaseIfBound id) :=
      congrArg (Option.map (ManagedUtxo.releaseIfBound · id)) hu.managed
    rcases hu.free with hlock | hconflict
    · -- without a lock the output is not bound
      have hbinding : u.operationBinding = none := by
        cases hb : u.operationBinding with
        | none => rfl
        | some b =>
          obtain ⟨k, hk⟩ := h.bound u b hu.managed hb
          rw [hlock] at hk
          cases hk
      refine ⟨u, ?_, hu.unspendable, .inl (congrArg (Option.filter _) hlock)⟩
      rw [hutxo, ManagedUtxo.releaseIfBound, ManagedUtxo.not_boundTo_of_none hbinding]
      rfl
    · have hkept : (u.releaseIfBound id).observationConflict ≠ none := by
        unfold ManagedUtxo.releaseIfBound
        split_ifs
        · exact hconflict
        · exact hconflict
      refine ⟨_, hutxo, ?_, .inr hkept⟩
      rw [← Bool.not_eq_true, ManagedUtxo.isPolicySpendable_iff]
      exact fun hspend => hkept hspend.2.2.2

end Cell

namespace InMemoryStateStore

variable {s s' : InMemoryStateStore} {owner : String}

/-! ## Selections that cannot be committed -/

/-- A selection that cannot be committed, no matter which other intents are pending. -/
inductive Unfit (s : InMemoryStateStore) (selection : OperationSelection) : Prop where
  /-- Its structure or its capabilities are not valid, or an input is not managed. -/
  | invalid (h : ¬ selection.validateCapabilities (m := DomainResult)
      (fun id => .ok (s.getAccount id)) (fun id => .ok (s.getScope id))
      (fun o => .ok (s.getUtxo o)) = .ok ())
  /-- An input cannot be spent, and not just because it is reserved. -/
  | unspendable (o : OutPoint) (u : ManagedUtxo) (input : o ∈ selection.selectedOutpoints)
      (unspendable : (s.cell o).Unspendable u)
  /-- An input is locked by a committed operation. -/
  | committed (o : OutPoint) (k : OperationLock) (j : OperationIntent)
      (input : o ∈ selection.selectedOutpoints) (locked : s.getLock o = some k)
      (intent : s.getIntent k.operationId = some j) (committed : j.status = .committed)

/-! ## Refusals -/

section Refused

variable {i : OperationIntent} {effect : SelectionEffect} {u : ManagedUtxo}

/-- Where the selection is fit, an input that is neither free nor held is contended. -/
theorem pendingLockConflict_of_refusal (h : s.toLedger.Owned)
    (hop : ∀ op, s.getOperation i.selection.operationId = some op → op.phase = .selected)
    (hfit : ¬ s.Unfit i.selection) {o : OutPoint} (ho : o ∈ i.selection.selectedOutpoints)
    (hu : s.getUtxo o = some u) (hfree : ¬ (u.isPolicySpendable = true ∧ s.getLock o = none))
    (hheld : ¬ alreadyApplied i.selection.operationId .selected u (s.getLock o) = true) :
    s.pendingLockConflict i.selection.operationId
      (lockRefusal u (s.getLock o).isSome o) = true := by
  cases hk : s.getLock o with
  | none =>
    have hspend : u.isPolicySpendable = false :=
      Bool.eq_false_iff.mpr fun hspend => hfree ⟨hspend, hk⟩
    exact (hfit (.unspendable o u ho ⟨hu, hspend, .inl hk⟩)).elim
  | some k =>
    -- the owner of the lock is bound to the output and has an intent that has not failed
    obtain ⟨v, b, hv, hb, howner, -⟩ := (h.agrees o).locked k hk
    obtain rfl : u = v := Option.some.inj (hu.symm.trans hv)
    obtain ⟨⟨op, hop', hphase⟩, -, j, hj, hfailed, -⟩ :=
      h.backs o b (Cell.binding_eq_some_iff.mpr ⟨u, hv, hb⟩)
    rw [← howner] at hop' hj
    have hpending : j.status = .pending := by
      cases hst : j.status with
      | pending => rfl
      | failed => exact (hfailed hst).elim
      | committed => exact (hfit (.committed o k j ho hk hj hst)).elim
    have hne : k.operationId ≠ i.selection.operationId := by
      intro heq
      refine hheld (alreadyApplied_iff.mpr ⟨?_, k, hk, heq⟩)
      rw [heq] at hop' howner
      rw [hb, howner, ← hop op hop', hphase]
    have hconflict : u.observationConflict = none := by
      by_contra hconflict
      refine hfit (.unspendable o u ho ⟨hu, ?_, .inr hconflict⟩)
      rw [← Bool.not_eq_true, ManagedUtxo.isPolicySpendable_iff]
      exact fun hspend => hconflict hspend.2.2.2
    have hcontended : Orchestrator.contendedOutpoint (lockRefusal u true o) = some o := by
      unfold lockRefusal
      rw [hconflict]
      by_cases hav : u.availability = .selectable
      · rw [if_neg (not_not.mpr hav), if_neg (by simp)]
        rfl
      · rw [if_pos hav]
        rfl
    unfold pendingLockConflict
    rw [Option.isSome_some, hcontended]
    dsimp only
    rw [hk, Option.any_some, show s.getIntent k.operationId = some j from hj]
    simp [hne, hpending]

/-- What an operation in `Selected` holds, it holds as its selection asks for. -/
theorem lockDiffers_of_held (h : s.toLedger.Owned) (hjustified : s.toLedger.Justified)
    (hdated : s.toLedger.Dated) (hi : s.getIntent i.selection.operationId = some i)
    (hop : ∀ op, s.getOperation i.selection.operationId = some op → op.phase = .selected)
    (hw : i.selection.WellFormed) (he : effect ∈ i.selection.effects)
    (hu : s.getUtxo effect.outpoint = some u) {k : OperationLock}
    (hk : s.getLock effect.outpoint = some k) (howner : k.operationId = i.selection.operationId) :
    lockDiffers ⟨i.selection, .selected, owner⟩ u effect.purpose k = false := by
  obtain ⟨v, b, hv, -, -, haccount, hscope⟩ := (h.agrees effect.outpoint).locked k hk
  obtain rfl : u = v := Option.some.inj (hu.symm.trans hv)
  obtain ⟨j, hj, hmem⟩ := hjustified _ k hk
  obtain rfl : i = j := by
    rw [howner] at hj
    exact Option.some.inj (hi.symm.trans hj)
  have hpurpose : k.purpose = effect.purpose := by
    have heq := List.inj_on_of_nodup_map hw.effects_nodup hmem he rfl
    exact congrArg SelectionEffect.purpose heq
  have hexpires : k.expiresAt = i.selection.expiresAt := by
    rcases hdated _ k hk with ⟨j, hj, hexpires⟩ | ⟨op, hget, hphase⟩
    · rw [howner] at hj
      obtain rfl : i = j := Option.some.inj (hi.symm.trans hj)
      exact hexpires.symm
    · rw [howner] at hget
      exact (hphase (hop op hget)).elim
  unfold lockDiffers
  simp [hpurpose, hexpires, haccount, hscope]

/-- A commit of a pending intent that is refused without contention is refused because its operation
has left `Selected` or its selection is unfit. -/
theorem unfit_of_refused (h : Run freeRules empty s)
    (hi : s.getIntent i.selection.operationId = some i) (hp : i.status = .pending)
    {e : DomainError}
    (hrefused : Program.run exec (Orchestrator.commitSelection owner i.selection) s =
      (.error e, s'))
    (hconflict : s.pendingLockConflict i.selection.operationId e = false) :
    (∃ op, s.getOperation i.selection.operationId = some op ∧ op.phase ≠ .selected) ∨
      s.Unfit i.selection := by
  have howned := h.owned
  have hjustified : s.toLedger.Justified := h.invariant .empty fun _ _ hl hm => hl.move hm
  have hdated : s.toLedger.Dated := h.invariant .empty fun _ _ hl hm => hl.move hm
  by_contra hnot
  rw [not_or] at hnot
  obtain ⟨hop, hfit⟩ := hnot
  simp only [not_exists, not_and, not_not] at hop
  have hvalid := not_not.mp fun hinvalid => hfit (.invalid hinvalid)
  have hauth := OperationSelection.validateCapabilities_eq_ok_iff.mp hvalid
  have hinput : ∀ e ∈ i.selection.effects, e.outpoint ∈ i.selection.selectedOutpoints := fun e he =>
    (hauth.wellFormed.mem_iff _).mpr (List.mem_map.mpr ⟨e, he, rfl⟩)
  have hmanaged : ∀ e ∈ i.selection.effects, ∃ u, s.getUtxo e.outpoint = some u := fun e he =>
    (hauth.effects e he).imp fun u hu => hu.1
  -- a fit selection is refused for contention only, by each of the two rounds of checks
  have hcommit : FailsOnly (fun e => s.pendingLockConflict i.selection.operationId e = true)
      (s.toLedger.checkCommit i.selection) := by
    have hselected : s.toLedger.checkSelected i.selection.operationId = .ok () := by
      unfold Ledger.checkSelected
      cases hget : s.toLedger.operation i.selection.operationId with
      | none => rfl
      | some op => exact if_neg (not_not.mpr (hop op hget))
    unfold Ledger.checkCommit
    rw [hselected]
    refine .bind (.ok ()) fun _ => .bind ?_ fun _ => .forM fun effect he => ?_
    · exact hvalid ▸ FailsOnly.ok ()
    · obtain ⟨u, hu⟩ := hmanaged effect he
      unfold Cell.checkCommit
      rw [show (s.toLedger.cell effect.outpoint).utxo = some u from hu]
      dsimp only
      split_ifs with hfree hheld
      · exact .ok ()
      · exact .ok ()
      · exact .error (pendingLockConflict_of_refusal howned hop hfit (hinput effect he) hu hfree
          hheld)
  have hbatch : FailsOnly (fun e => s.pendingLockConflict i.selection.operationId e = true)
      (s.toLedger.validateBatch ⟨i.selection, .selected, owner⟩) := by
    have hrecords : s.toLedger.checkBatch ⟨i.selection, .selected, owner⟩ = .ok () := by
      refine Ledger.checkBatch_eq_ok_iff.mpr ⟨fun j hj => ?_, fun op hget => ?_⟩
      · obtain rfl : i = j := Option.some.inj (hi.symm.trans hj)
        exact ⟨by rw [hp]; decide, rfl⟩
      · exact ⟨hop op hget, by rw [hop op hget]; decide⟩
    unfold Ledger.validateBatch
    rw [hrecords]
    refine .bind (.ok ()) fun _ => .bind ?_ fun _ => .forM fun effect he => ?_
    · exact hvalid ▸ FailsOnly.ok ()
    · obtain ⟨u, hu⟩ := hmanaged effect he
      unfold Cell.checkHold
      rw [show (s.toLedger.cell effect.outpoint).utxo = some u from hu]
      dsimp only
      split_ifs with hheld hdiffers hfree
      · obtain ⟨k, hk, hdiff⟩ := (Option.any_eq_true _ _).mp hdiffers
        obtain ⟨-, k', hk', howner⟩ := alreadyApplied_iff.mp hheld
        obtain rfl : k = k' := Option.some.inj (hk.symm.trans hk')
        rw [lockDiffers_of_held howned hjustified hdated hi hop hauth.wellFormed he hu hk howner]
          at hdiff
        cases hdiff
      · exact .ok ()
      · exact .ok ()
      · refine .error (pendingLockConflict_of_refusal howned hop hfit (hinput effect he) hu ?_
          hheld)
        rintro ⟨hspend, hlock⟩
        refine hfree (ManagedUtxo.canBeLocked_iff.mpr ⟨hspend, ?_⟩)
        rw [show (s.toLedger.cell effect.outpoint).lock = none from hlock]
        rfl
  have hcontended := (commitSelection_fails hcommit hbatch hrefused).2
  rw [hconflict] at hcontended
  cases hcontended

end Refused

/-! ## What recovery leaves standing -/

/-- What a selection is judged by stays as it is. -/
structure Upholds (s s' : InMemoryStateStore) : Prop where
  account : s'.getAccount = s.getAccount
  scope : s'.getScope = s.getScope
  cell : ∀ o, (s.cell o).Keeps (s'.cell o)
  committed : ∀ o k j, s.getLock o = some k → s.getIntent k.operationId = some j →
    j.status = .committed → s'.getLock o = some k ∧ s'.getIntent k.operationId = some j

theorem Upholds.authorised (h : s.Upholds s') {selection : OperationSelection}
    (hauth : selection.Authorised s'.getAccount s'.getScope s'.getUtxo) :
    selection.Authorised s.getAccount s.getScope s.getUtxo := by
  refine ⟨hauth.wellFormed, fun e he => ?_, ?_⟩
  · obtain ⟨u', hu', hgrants⟩ := hauth.effects e he
    have hscope := (h.cell e.outpoint).scope
    rw [show (s'.cell e.outpoint).utxo = some u' from hu'] at hscope
    obtain ⟨u, hu, hsame⟩ := Option.map_eq_some_iff.mp hscope.symm
    obtain ⟨haccount, hscope⟩ := Prod.mk.inj hsame
    refine ⟨u, hu, ?_⟩
    rw [haccount, hscope, ← h.account, ← h.scope]
    exact hgrants
  · rw [← h.account, ← h.scope]
    exact hauth.change

theorem Unfit.upheld {selection : OperationSelection} (hu : s.Unfit selection) (h : s.Upholds s') :
    s'.Unfit selection := by
  cases hu with
  | invalid hinvalid =>
    rw [OperationSelection.validateCapabilities_eq_ok_iff] at hinvalid
    refine .invalid ?_
    rw [OperationSelection.validateCapabilities_eq_ok_iff]
    exact fun hauth => hinvalid (h.authorised hauth)
  | unspendable o u input unspendable =>
    obtain ⟨u', hu'⟩ := (h.cell o).unspendable u unspendable
    exact .unspendable o u' input hu'
  | committed o k j input locked intent committed =>
    obtain ⟨hlock, hintent⟩ := h.committed o k j locked intent committed
    exact .committed o k j input hlock hintent committed

section Steps

variable {i : OperationIntent}

/-- A commit of a pending intent. -/
theorem upholds_commit {s₁ : InMemoryStateStore}
    (hi : s.getIntent i.selection.operationId = some i) (hp : i.status = .pending)
    (hcommit : Program.run exec (Orchestrator.commitSelection owner i.selection) s = (.ok (), s₁))
    (hmark : exec (.markIntentCommitted i.selection.operationId) s₁ = (.ok (), s')) :
    s.Upholds s' := by
  obtain ⟨hadmits, hs₁⟩ := commitSelection_ok hcommit
  have happlied := (toLedger_applyBatch_of_admits hadmits).2
  rw [← hs₁] at happlied
  have hi₁ : s₁.getIntent i.selection.operationId = some i :=
    (congrFun (congrArg Ledger.intent happlied) _).trans hi
  obtain ⟨s'', hmark', hmarked⟩ := exec_markIntentCommitted hi₁ hp
  obtain rfl : s' = s'' := congrArg Prod.snd (hmark.symm.trans hmark')
  have hcell : ∀ o, s'.cell o = s.toLedger.holdCells ⟨i.selection, .selected, owner⟩ o := fun o =>
    (congrFun (congrArg Ledger.cell hmarked) o).trans (congrFun (congrArg Ledger.cell happlied) o)
  refine ⟨(congrArg Ledger.account hmarked).trans (congrArg Ledger.account happlied),
    (congrArg Ledger.scope hmarked).trans (congrArg Ledger.scope happlied), fun o => ?_,
    fun o k j hk hj hst => ⟨?_, ?_⟩⟩
  · rw [hcell]
    rcases s.toLedger.holdCells_cases ⟨i.selection, .selected, owner⟩ o with
      ⟨e, he, rfl, heq⟩ | ⟨-, heq⟩
    · rw [heq]
      exact (hadmits.holdable e he).keeps _
    · rw [heq]
      exact .refl _
  · refine (congrArg Cell.lock (hcell o)).trans ?_
    rcases s.toLedger.holdCells_cases ⟨i.selection, .selected, owner⟩ o with
      ⟨e, he, rfl, heq⟩ | ⟨-, heq⟩
    · rw [heq]
      cases hadmits.holdable e he with
      | free u utxo spendable lock =>
        rw [show (s.toLedger.cell e.outpoint).lock = some k from hk] at lock
        cases lock
      | held u k' utxo binding lock howner =>
        rw [Cell.hold_of_held utxo binding lock howner]
        exact hk
    · rw [heq]
      exact hk
  · have hne : k.operationId ≠ i.selection.operationId := by
      intro heq
      rw [heq, hi] at hj
      cases hj
      rw [hp] at hst
      cases hst
    refine (congrFun (congrArg Ledger.intent hmarked) _).trans
      ((Function.update_of_ne hne _ _).trans ?_)
    exact (congrFun (congrArg Ledger.intent happlied) _).trans hj

/-- A rejection of a pending intent. -/
theorem upholds_fail (h : Run freeRules empty s)
    (hi : s.getIntent i.selection.operationId = some i) (hp : i.status = .pending)
    (hmark : exec (.markIntentFailed i.selection.operationId) s = (.ok (), s')) :
    s.Upholds s' := by
  obtain ⟨s'', hmark', hledger⟩ :=
    exec_markIntentFailed hi hp fun op hop => phase_of_pending h hi hp hop
  obtain rfl : s' = s'' := congrArg Prod.snd (hmark.symm.trans hmark')
  have hother : ∀ {k : OperationLock} {j : OperationIntent},
      s.getIntent k.operationId = some j → j.status = .committed →
        k.operationId ≠ i.selection.operationId := by
    intro k j hj hst heq
    rw [heq, hi] at hj
    cases hj
    rw [hp] at hst
    cases hst
  rcases hledger with hledger | hledger
  · refine ⟨congrArg Ledger.account hledger, congrArg Ledger.scope hledger, fun o => ?_,
      fun o k j hk hj hst => ⟨?_, ?_⟩⟩
    · rw [show s'.cell o = s.cell o from congrFun (congrArg Ledger.cell hledger) o]
      exact .refl _
    · exact (congrArg Cell.lock (congrFun (congrArg Ledger.cell hledger) o)).trans hk
    · exact (congrFun (congrArg Ledger.intent hledger) _).trans
        ((Function.update_of_ne (hother hj hst) _ _).trans hj)
  · have hcell : ∀ o, s'.cell o = (s.cell o).release i.selection.operationId :=
      fun o => congrFun (congrArg Ledger.cell hledger) o
    refine ⟨congrArg Ledger.account hledger, congrArg Ledger.scope hledger, fun o => ?_,
      fun o k j hk hj hst => ⟨?_, ?_⟩⟩
    · rw [hcell]
      exact (h.owned.agrees o).keeps_release _
    · refine (congrArg Cell.lock (hcell o)).trans (Option.filter_eq_some_iff.mpr ⟨hk, ?_⟩)
      simpa using hother hj hst
    · exact (congrFun (congrArg Ledger.intent hledger) _).trans
        ((Function.update_of_ne (hother hj hst) _ _).trans hj)

end Steps

/-! ## Rejected intents -/

/-- Why recovery rejected an operation that it found in `s` and left in `s'`: it had left `Selected`
already, or its selection is unfit to the end. -/
def Rightly (s s' : InMemoryStateStore) (id : OperationId) : Prop :=
  (∃ op, s.getOperation id = some op ∧ op.phase ≠ .selected) ∨
    ∃ i, s'.getIntent id = some i ∧ i.status = .failed ∧ s'.Unfit i.selection

/-- What recovery from `s` keeps true: it makes a run, pending intents are as they were, and every
rejection is right. -/
structure Recovering (s : InMemoryStateStore) (x : InMemoryStateStore × RecoveryReport) : Prop where
  run : Run freeRules s x.1
  operation : ∀ id i, x.1.getIntent id = some i → i.status = .pending →
    x.1.getOperation id = s.getOperation id
  failed : ∀ id ∈ x.2.failedOperations, s.Rightly x.1 id

theorem Rightly.upheld {s₀ : InMemoryStateStore} {id : OperationId} (h : s₀.Rightly s id)
    (hs : s.Upholds s') {i : OperationIntent} {status : IntentStatus}
    (hsettles : s.Settles s' i status)
    (hi : s.getIntent i.selection.operationId = some i) (hp : i.status = .pending) :
    s₀.Rightly s' id := by
  rcases h with hleft | ⟨j, hj, hfailed, hunfit⟩
  · exact .inl hleft
  · have hne : id ≠ i.selection.operationId := by
      rintro rfl
      obtain rfl : i = j := Option.some.inj (hi.symm.trans hj)
      rw [hp] at hfailed
      cases hfailed
    exact .inr ⟨j, (hsettles.intent_of_ne hne).trans hj, hfailed, hunfit.upheld hs⟩

theorem Settles.operation_kept {s₀ : InMemoryStateStore} {i : OperationIntent}
    {status : IntentStatus} (h : s.Settles s' i status) (hstatus : status ≠ .pending)
    (hkept : ∀ id j, s.getIntent id = some j → j.status = .pending →
      s.getOperation id = s₀.getOperation id) :
    ∀ id j, s'.getIntent id = some j → j.status = .pending →
      s'.getOperation id = s₀.getOperation id := by
  intro id j hj hp
  by_cases hid : id = i.selection.operationId
  · rw [h.intent, hid, Function.update_self] at hj
    cases hj
    exact (hstatus hp).elim
  · rw [h.intent_of_ne hid] at hj
    exact (h.operation id hid).trans (hkept id j hj hp)

theorem Recovering.step {s₀ : InMemoryStateStore} (h₀ : Run freeRules empty s₀)
    {x y : InMemoryStateStore × RecoveryReport} (h : s₀.Recovering x)
    (hstep : RecoveryStep owner x y) : s₀.Recovering y := by
  cases hstep with
  | replay report recorded pending commit mark =>
    obtain ⟨s'', hmark', hsettles, -⟩ := settles_commit recorded pending commit
    obtain rfl := congrArg Prod.snd (mark.symm.trans hmark')
    refine ⟨h.run.trans hsettles.run, hsettles.operation_kept (by decide) h.operation,
      fun id hid => ?_⟩
    exact (h.failed id hid).upheld (upholds_commit recorded pending commit mark) hsettles recorded
      pending
  | reject report recorded pending refused conflict mark =>
    have hrun := h₀.trans h.run
    obtain ⟨s'', hmark', hsettles, -⟩ := settles_fail recorded pending
      fun op hop => phase_of_pending hrun recorded pending hop
    obtain rfl := congrArg Prod.snd (mark.symm.trans hmark')
    have hupholds := upholds_fail hrun recorded pending mark
    refine ⟨h.run.trans hsettles.run, hsettles.operation_kept (by decide) h.operation,
      fun id hid => ?_⟩
    rcases List.mem_append.mp hid with hid | hid
    · exact (h.failed id hid).upheld hupholds hsettles recorded pending
    · obtain rfl := List.mem_singleton.mp hid
      rcases unfit_of_refused hrun recorded pending refused conflict with ⟨op, hop, hphase⟩ | hunfit
      · exact .inl ⟨op, (h.operation _ _ recorded pending).symm.trans hop, hphase⟩
      · exact .inr ⟨_, (congrFun hsettles.intent _).trans (Function.update_self _ _ _), rfl,
          hunfit.upheld hupholds⟩

theorem Recovering.steps {s₀ : InMemoryStateStore} (h₀ : Run freeRules empty s₀)
    {x y : InMemoryStateStore × RecoveryReport} (h : s₀.Recovering x)
    (hsteps : RecoverySteps owner x y) : s₀.Recovering y := by
  induction hsteps with
  | refl => exact h
  | tail _ hstep ih => exact ih.step h₀ hstep

/-- Recovery never rejects an intent it could have kept: in the end the selection of every operation
it reports as failed is unfit, unless the operation had left `Selected` before recovery started. -/
theorem recovery_rejects_unfit (h : CutRun empty s) (owner : String) :
    ∃ report s', Program.run exec (Orchestrator.recoverPendingIntents owner) s = (.ok report, s') ∧
      ∀ id ∈ report.failedOperations,
        (∃ op, s.getOperation id = some op ∧ op.phase ≠ .selected) ∨
          ∃ i, s'.getIntent id = some i ∧ i.status = .failed ∧ s'.Unfit i.selection := by
  obtain ⟨report, s', hrun, -, -, -, -, hsteps⟩ := run_recoverPendingIntents h owner
  have hstart : s.Recovering (s, ⟨[], []⟩) :=
    ⟨.refl, fun _ _ _ _ => rfl, fun _ hid => (List.not_mem_nil hid).elim⟩
  exact ⟨report, s', hrun, (hstart.steps h.run hsteps).failed⟩

/-- Of two payments for one output, the one that is rejected wants an input of the other. -/
theorem recovery_rejects_unfit_sample : ∃ report s',
    Program.run exec (Orchestrator.recoverPendingIntents "owner")
      (afterMethods "owner" Sample.contention empty) = (.ok report, s') ∧
    ∀ id ∈ report.failedOperations,
      (∃ op, (afterMethods "owner" Sample.contention empty).getOperation id = some op ∧
        op.phase ≠ .selected) ∨
      ∃ i, s'.getIntent id = some i ∧ i.status = .failed ∧ s'.Unfit i.selection :=
  recovery_rejects_unfit
    (cutRun_afterMethods "owner" _ (fun u hu => by simp [Sample.contention] at hu) _) "owner"

end InMemoryStateStore

end Txoscope
