import Txoscope.Service.Mixing

/-!
# Preparing next to a reconciliation

`Prepares` are the calls of `prepare_operation` while the store may be reconciled under it: until the
batch is applied nothing but intents is written, and the batch is one that was drawn from the two
stores (`meets_prepareOperation`). So in the end nothing was reserved and the call failed, or the
batch was accepted by the store as it was or by the reconciled one.
-/

namespace Txoscope

/-- The tick of a hold only shows in the lock. -/
theorem Cell.undated_hold (batch : StateBatch) (tick tick' : ℕ) (purpose : LockPurpose) (c : Cell) :
    (c.hold batch tick purpose).undated = (c.hold batch tick' purpose).undated := by
  unfold hold
  cases c.utxo with
  | none => rfl
  | some u =>
    dsimp only
    split_ifs <;> rfl

namespace InMemoryStateStore

variable {s r y : InMemoryStateStore} {owner : String} {request : SelectionRequest}
  {selection : OperationSelection} {i : OperationIntent}

/-! ## The calls -/

/-- No other selection is on record for the operation, and its intent is not settled. -/
def Unsettled (s : InMemoryStateStore) (selection : OperationSelection) : Prop :=
  s.getIntent selection.operationId = none ∨ ∃ i, s.getIntent selection.operationId = some i ∧
    i.status = .pending ∧ i.selection = selection

/-- The calls of a preparation that is reconciled under. -/
inductive Prepares (s r : InMemoryStateStore) (owner : String) (request : SelectionRequest)
    (y : InMemoryStateStore) : StoreCall → Prop where
  | read {c : StoreCall} (read : c.IsRead) : Prepares s r owner request y c
  | persist (selection : OperationSelection) : Prepares s r owner request y (.persistIntent selection)
  | reserve (selection : OperationSelection) (drawn : s.Drawn r request selection)
      (idle : y.getOperation selection.operationId = none)
      (unsettled : s.Unsettled selection) :
      Prepares s r owner request y (.applyBatch ⟨selection, .selected, owner⟩)
  | commit (id : OperationId) : Prepares s r owner request y (.markIntentCommitted id)
  | fail (id : OperationId) (idle : ∀ op, y.getOperation id = some op → op.phase ≠ .selected) :
      Prepares s r owner request y (.markIntentFailed id)

/-- The intent is on record, in a store that was not written otherwise since `s`. -/
structure Awaits (s r : InMemoryStateStore) (i : OperationIntent) (y : InMemoryStateStore) :
    Prop where
  tables : s.SameTables y ∨ r.SameTables y
  intent : y.getIntent i.selection.operationId = some i

theorem Awaits.meddled {y' : InMemoryStateStore} (hy : s.Awaits r i y) (h : s.Meddles r y y') :
    s.Awaits r i y' :=
  ⟨hy.tables.elim h.before fun hr => .inr (h.after hr),
    (congrArg (fun intents : Dict _ _ => intents.get i.selection.operationId) h.intents).trans
      hy.intent⟩

/-- A preparation that succeeds has put its operation on record, unless its intent was committed
before. -/
def Succeeds (s : InMemoryStateStore) (id : OperationId) {α : Type} (res : DomainResult α)
    (y : InMemoryStateStore) : Prop :=
  ∀ a, res = .ok a → s.getOperation id = none ∧ (y.getOperation id).isSome = true ∨
    ∃ i, s.getIntent id = some i ∧ i.status = .committed

/-- What an operation holds cannot be drawn for it again. -/
theorem Drawn.not_selected (h : s.LeadsTo r) (hs : Run freeRules empty s)
    (hr : Run freeRules empty r) (hd : s.Drawn r request i.selection)
    (hi : ∀ j, s.getIntent i.selection.operationId = some j → j = i) {op : PersistedOperation}
    (hop : s.getOperation i.selection.operationId = some op) : op.phase ≠ .selected := by
  intro hphase
  obtain ⟨o, ho, u, hu, hspendable⟩ := hd.spendable h hs.wellKeyed hr.wellKeyed
  obtain ⟨-, hconfirmed, hunbound, -⟩ := ManagedUtxo.isPolicySpendable_iff.mp hspendable
  have hputs : ∀ l u, freeRules.puts l u → l.utxo u.outpoint = none := fun _ _ h => h.1
  have hheld : ∀ {x : InMemoryStateStore}, Run freeRules empty x → x.getUtxo o = some u →
      (∀ j, x.getIntent i.selection.operationId = some j → j = i) →
      x.getOperation i.selection.operationId = some op → False := by
    intro x hx hxu hxi hxop
    have hreserved : x.toLedger.Reserved := hx.invariant .empty fun _ _ hl hm => hl.move hputs hm
    obtain ⟨i', hi', -, hall⟩ := (hreserved _ op hxop hphase).intent
    obtain rfl : i' = i := hxi i' hi'
    rcases hall o ho with hheld | hretired
    · obtain ⟨v, hv, hb⟩ := Cell.binding_eq_some_iff.mp hheld.binding
      obtain rfl : u = v := Option.some.inj (hxu.symm.trans hv)
      rw [hunbound] at hb
      cases hb
    · obtain ⟨v, hv, hspent⟩ := hretired.1
      obtain rfl : u = v := Option.some.inj (hxu.symm.trans hv)
      rw [hconfirmed] at hspent
      cases hspent
  rcases hu with hu | hu
  · exact hheld hs hu hi hop
  · refine hheld hr hu (fun j hj => hi j ?_) ?_
    · exact (congrArg (fun t : Dict _ _ => t.get i.selection.operationId) h.intents).symm.trans hj
    · exact (congrArg (fun t : Dict _ _ => t.get i.selection.operationId) h.operations).trans hop

/-- A batch that is refused changes nothing, and one that is accepted passed every check. -/
theorem exec_applyBatch_cases (y : InMemoryStateStore) (owner : String)
    (selection : OperationSelection) :
    (∃ e, exec (.applyBatch ⟨selection, .selected, owner⟩) y = (.error e, y)) ∨
      y.toLedger.Admits ⟨selection, .selected, owner⟩ ∧
        ∃ y', exec (.applyBatch ⟨selection, .selected, owner⟩) y = (.ok (), y') ∧
          y'.toLedger = { y.toLedger with
            cell := y.toLedger.holdCells ⟨selection, .selected, owner⟩ }.setOperation
              selection.operationId .selected selection.expiresAt := by
  cases hv : y.toLedger.validateBatch ⟨selection, .selected, owner⟩ with
  | ok _ =>
    have hadmits := Ledger.validateBatch_eq_ok_iff.mp hv
    obtain ⟨hok, hledger⟩ := toLedger_applyBatch_of_admits hadmits
    exact .inr ⟨hadmits, _, Prod.ext hok rfl, hledger⟩
  | error e =>
    refine .inl ⟨e, ?_⟩
    obtain ⟨hresult, -⟩ := toLedger_applyBatch y ⟨selection, .selected, owner⟩
    unfold Ledger.applyBatch at hresult
    rw [hv] at hresult
    change y.applyBatch _ = _
    unfold applyBatch at hresult ⊢
    cases hp : y.planBatch ⟨selection, .selected, owner⟩ with
    | ok plan =>
      rw [hp] at hresult
      cases hresult
    | error e' =>
      rw [hp] at hresult
      cases hresult
      rfl

/-- A selection is recorded once, and refused if another one was recorded. -/
theorem exec_persistIntent_cases (y : InMemoryStateStore) (selection : OperationSelection) :
    (∃ i, y.getIntent selection.operationId = some i ∧ i.selection ≠ selection ∧
        ∃ e, exec (.persistIntent selection) y = (.error e, y)) ∨
      ∃ i y', exec (.persistIntent selection) y = (.ok i, y') ∧ i.selection = selection ∧
        y.SameTables y' ∧ y'.getIntent selection.operationId = some i ∧
        (y.getIntent selection.operationId = none ∧ i.status = .pending ∨
          y.getIntent selection.operationId = some i) := by
  cases hi : y.getIntent selection.operationId with
  | none =>
    obtain ⟨i, y', hrun, hsel, hp, hledger⟩ := exec_persistIntent_fresh hi
    have htables := y.sameTables_persistIntent selection
    rw [show (y.persistIntent selection).2 = y' from congrArg Prod.snd hrun] at htables
    refine .inr ⟨i, y', hrun, hsel, htables, ?_, .inl ⟨rfl, hp⟩⟩
    exact (congrFun (congrArg Ledger.intent hledger) _).trans (Function.update_self _ _ _)
  | some i =>
    by_cases hsel : i.selection = selection
    · have hrun := run_persistSelectionIntent_same hi hsel
      exact .inr ⟨i, y, hrun, hsel, .refl y, hi, .inr rfl⟩
    · refine .inl ⟨i, rfl, hsel, .intentConflict selection.operationId, ?_⟩
      change y.persistIntent selection = _
      unfold persistIntent
      rw [show y.intents.get selection.operationId = some i from hi]
      exact if_pos hsel

/-- A preparation proposes a selection and applies it. -/
theorem prepareOperation_program (owner : String) (request : SelectionRequest) :
    (Orchestrator.Method.prepareOperation request).program owner = (do
      let selection ← Orchestrator.proposeOperation request
      Orchestrator.applySelection owner selection) := by
  unfold Orchestrator.Method.program Orchestrator.prepareOperation
    Orchestrator.preparePendingOperation Orchestrator.applySelection
  simp only [bind_assoc, pure_bind, bind_pure_unit]

/-! ## What they establish -/

section Meets

variable (h : s.LeadsTo r) (hs : Run freeRules empty s) (hr : Run freeRules empty r)

include h in
theorem Awaits.getOperation_eq (hy : s.Awaits r i y) (id : OperationId) :
    y.getOperation id = s.getOperation id := by
  rcases hy.tables with htables | htables
  · exact htables.getOperation_eq id
  · refine (htables.getOperation_eq id).trans ?_
    exact congrArg (fun t : Dict _ _ => t.get id) h.operations

include h in
/-- A refused commit leaves the intent pending if a lock is in the way, and otherwise it fails the
intent. -/
theorem meets_settleRefusal (e : DomainError) (hy : s.Awaits r i y)
    (hnot : ∀ op, y.getOperation i.selection.operationId = some op → op.phase ≠ .selected) :
    (do
      let conflict ← Orchestrator.isPendingLockConflict i.selection.operationId e
      if conflict then throw e
      else
        (StoreCall.markIntentFailed i.selection.operationId).invoke
        throw e : Client Unit).Meets exec (s.Meddles r) (s.Prepares r owner request)
          (s.Succeeds i.selection.operationId) y := by
  have hadm : ∀ y c, StoreCall.IsRead c → s.Prepares r owner request y c := fun _ _ => .read
  refine .bind ((meets_reads hadm (Orchestrator.isPendingLockConflict_onlyReads _ _)
    (fun _ _ hy' hm => Awaits.meddled hy' hm) hy).conseq fun res y₁ hy₁ => ?_)
  cases res with
  | error e => exact fun _ h => by cases h
  | ok conflict =>
    dsimp only
    split_ifs
    · exact .throw fun _ h => by cases h
    · refine .bind (.invoke fun y₂ hm => ⟨.fail _ fun op hop => ?_, ?_⟩)
      · refine hnot op ?_
        rw [hy.getOperation_eq h, ← (hy₁.meddled hm).getOperation_eq h]
        exact hop
      · cases (exec (.markIntentFailed i.selection.operationId) y₂).1 with
        | ok _ => exact .throw fun _ h => by cases h
        | error e => exact fun _ h => by cases h

include h hs hr

/-- A commit writes by the batch alone, and only if its operation is not on record yet. -/
theorem meets_commitSelection (hd : s.Drawn r request i.selection) (hp : i.status = .pending)
    (hi : ∀ j, s.getIntent i.selection.operationId = some j → j = i) (hy : s.Awaits r i y) :
    (Orchestrator.commitSelection owner i.selection).Meets exec (s.Meddles r)
      (s.Prepares r owner request) (fun res y' =>
        (res = .ok () → s.getOperation i.selection.operationId = none ∧
          (y'.getOperation i.selection.operationId).isSome = true) ∧
        ∀ e, res = .error e → s.Awaits r i y' ∧
          ∀ op, y'.getOperation i.selection.operationId = some op → op.phase ≠ .selected) y := by
  have hadm : ∀ y c, StoreCall.IsRead c → s.Prepares r owner request y c := fun _ _ => .read
  unfold Orchestrator.commitSelection
  refine meets_bind_read hadm trivial fun y₁ hm => ⟨_, rfl, ?_⟩
  have hy₁ := hy.meddled hm
  have hnot : ∀ {y'}, s.Awaits r i y' → ∀ op, y'.getOperation i.selection.operationId = some op →
      op.phase ≠ .selected := fun hy' op hop =>
    hd.not_selected h hs hr hi ((hy'.getOperation_eq h _).symm.trans hop)
  cases hop : y₁.getOperation i.selection.operationId with
  | some op =>
    unfold Orchestrator.requireSelected
    dsimp only
    rw [if_pos (hnot hy₁ op hop)]
    exact ⟨fun h => (by cases h), fun _ _ => ⟨hy₁, hnot hy₁⟩⟩
  | none =>
    have hidle : s.getOperation i.selection.operationId = none :=
      (hy₁.getOperation_eq h _).symm.trans hop
    refine .bind (.pure ?_)
    refine .bind ((meets_reads hadm (Orchestrator.validateSelection_onlyReads _)
      (fun _ _ hy' hm' => Awaits.meddled hy' hm') hy₁).conseq fun res y₂ hy₂ => ?_)
    cases res with
    | error e => exact ⟨fun h => (by cases h), fun _ _ => ⟨hy₂, hnot hy₂⟩⟩
    | ok _ =>
      refine .invoke fun y₃ hm' => ⟨?_, ?_⟩
      all_goals have hy₃ := hy₂.meddled hm'
      · refine .reserve _ hd ((hy₃.getOperation_eq h _).trans hidle) ?_
        cases hstart : s.getIntent i.selection.operationId with
        | none => exact .inl hstart
        | some j =>
          obtain rfl := hi j hstart
          exact .inr ⟨j, hstart, hp, rfl⟩
      · rcases y₃.exec_applyBatch_cases owner i.selection with ⟨e, he⟩ | ⟨-, y₄, hok, hledger⟩
        · rw [he]
          exact ⟨fun h => (by cases h), fun _ _ => ⟨hy₃, hnot hy₃⟩⟩
        · rw [hok]
          refine ⟨fun _ => ⟨hidle, ?_⟩, fun e he => (by cases he)⟩
          have hrecord := congrArg (fun l => l.operation i.selection.operationId) hledger
          rw [show y₄.getOperation i.selection.operationId = _ from
            hrecord.trans (Function.update_self _ _ _)]
          rfl

/-- Without a batch, a recorded intent is marked or left alone. -/
theorem meets_commitRecordedIntent (hd : s.Drawn r request i.selection)
    (hi : s.getIntent i.selection.operationId = none ∧ i.status = .pending ∨
      s.getIntent i.selection.operationId = some i) (hy : s.Awaits r i y) :
    (Orchestrator.commitRecordedIntent owner i.selection.operationId).Meets exec (s.Meddles r)
      (s.Prepares r owner request) (s.Succeeds i.selection.operationId) y := by
  have hadm : ∀ y c, StoreCall.IsRead c → s.Prepares r owner request y c := fun _ _ => .read
  have hsame : ∀ j, s.getIntent i.selection.operationId = some j → j = i := by
    intro j hj
    rcases hi with ⟨hnone, -⟩ | hsome
    · rw [hnone] at hj
      cases hj
    · exact Option.some.inj (hj.symm.trans hsome)
  unfold Orchestrator.commitRecordedIntent
  refine meets_bind_read hadm trivial fun y₁ hm => ⟨_, rfl, ?_⟩
  have hy₁ := hy.meddled hm
  rw [hy₁.intent]
  dsimp only
  cases hst : i.status with
  | committed =>
    refine .pure fun _ _ => .inr ⟨i, ?_, hst⟩
    rcases hi with ⟨-, hpending⟩ | hsome
    · rw [hst] at hpending
      cases hpending
    · exact hsome
  | failed => exact .throw fun _ h => by cases h
  | pending =>
    refine .bind (.attempt ((meets_commitSelection h hs hr hd hst hsame hy₁).conseq
      fun res y₂ hres => ?_))
    cases res with
    | ok _ =>
      obtain ⟨hidle, hrecord⟩ := hres.1 rfl
      refine .invoke fun y₃ hm' => ⟨.commit _, fun _ _ => .inl ⟨hidle, ?_⟩⟩
      have hrecord : (y₃.getOperation i.selection.operationId).isSome = true := by
        rw [show y₃.getOperation i.selection.operationId = y₂.getOperation i.selection.operationId
          from congrArg (fun t : Dict _ _ => t.get i.selection.operationId) hm'.operations]
        exact hrecord
      have htables := y₃.sameTables_markIntentCommitted i.selection.operationId
      rw [show (exec (.markIntentCommitted i.selection.operationId) y₃).2.getOperation _ = _ from
        htables.getOperation_eq _]
      exact hrecord
    | error e =>
      obtain ⟨hy₂, hnot⟩ := hres.2 e rfl
      dsimp only
      split
      · rename_i heq
        cases heq
      · exact .throw fun _ h => by cases h
      · rename_i heq
        cases heq
        exact meets_settleRefusal h e hy₂ hnot

/-- A preparation makes such calls, whenever the store is reconciled under it. -/
theorem meets_prepareOperation (owner : String) (request : SelectionRequest) (hy : s.Between r y) :
    ((Orchestrator.Method.prepareOperation request).program owner).Meets exec (s.Meddles r)
      (s.Prepares r owner request) (s.Succeeds request.operationId) y := by
  have hadm : ∀ y c, StoreCall.IsRead c → s.Prepares r owner request y c := fun _ _ => .read
  rw [prepareOperation_program]
  refine .bind ((meets_proposeOperation hadm h hs.wellKeyed (Run.owned hs) hr.wellKeyed
    (Run.owned hr) request hy).conseq fun res y₁ hres => ?_)
  cases res with
  | error e => exact fun _ h => by cases h
  | ok selection =>
    obtain ⟨hy₁, hdrawn⟩ := hres
    have hd := hdrawn selection rfl
    rw [← hd.operationId]
    refine .bind ?_
    refine .invoke fun y₂ hm => ⟨.persist selection, ?_⟩
    have hy₂ := hy₁.meddled hm
    rcases y₂.exec_persistIntent_cases selection with
      ⟨-, -, -, e, he⟩ | ⟨i, y₃, hrun, hsel, hsame, hi, hstart⟩
    · rw [he]
      exact fun _ h => by cases h
    · rw [hrun]
      rw [← hsel] at hd hi hstart ⊢
      have hintent : y₂.getIntent i.selection.operationId = s.getIntent i.selection.operationId :=
        congrArg (fun t : Dict _ _ => t.get i.selection.operationId) hy₂.intents
      rw [hintent] at hstart
      have hy₃ : s.Awaits r i y₃ :=
        ⟨hy₂.tables.imp (·.trans hsame) (·.trans hsame), hi⟩
      exact meets_commitRecordedIntent h hs hr hd hstart hy₃

end Meets

/-! ## What they leave -/

/-- `y` is `x` with the inputs of `selection` reserved. -/
structure Took (x : InMemoryStateStore) (owner : String) (selection : OperationSelection)
    (y : InMemoryStateStore) : Prop where
  wellFormed : selection.WellFormed
  free : ∀ o ∈ selection.selectedOutpoints,
    (∃ u, x.getUtxo o = some u ∧ u.isPolicySpendable = true) ∧ x.getLock o = none
  idle : x.getOperation selection.operationId = none
  taken : ∀ e ∈ selection.effects, ∃ tick, y.cell e.outpoint =
    (x.cell e.outpoint).hold ⟨selection, .selected, owner⟩ tick e.purpose
  others : ∀ o, (∀ e ∈ selection.effects, e.outpoint ≠ o) → y.cell o = x.cell o
  operation : ∃ op, op.phase = .selected ∧
    y.getOperation = Function.update x.getOperation selection.operationId (some op)

section States

variable {x y' : InMemoryStateStore} {snapshot : ObservationSnapshot}

theorem Took.sameTables (h : x.Took owner selection y) (hy : y.SameTables y') :
    x.Took owner selection y' where
  wellFormed := h.wellFormed
  free := h.free
  idle := h.idle
  taken e he := by
    obtain ⟨tick, htick⟩ := h.taken e he
    exact ⟨tick, (hy.cell_eq _).trans htick⟩
  others o ho := (hy.cell_eq o).trans (h.others o ho)
  operation := by
    obtain ⟨op, hphase, hop⟩ := h.operation
    exact ⟨op, hphase, (funext hy.getOperation_eq).trans hop⟩

theorem Took.getOperation (h : x.Took owner selection y) :
    ∃ op, y.getOperation selection.operationId = some op ∧ op.phase = .selected := by
  obtain ⟨op, hphase, hop⟩ := h.operation
  exact ⟨op, by rw [hop, Function.update_self], hphase⟩

/-- What an accepted batch of a new operation leaves. -/
theorem took_of_admits (hx : x.toLedger.Owned) (hy : x.SameTables y)
    (hidle : y.getOperation selection.operationId = none)
    (hadmits : y.toLedger.Admits ⟨selection, .selected, owner⟩)
    (hledger : y'.toLedger = { y.toLedger with
      cell := y.toLedger.holdCells ⟨selection, .selected, owner⟩ }.setOperation
        selection.operationId .selected selection.expiresAt) : x.Took owner selection y' := by
  have hw := hadmits.authorised.wellFormed
  have hidle' : x.getOperation selection.operationId = none :=
    (hy.getOperation_eq _).symm.trans hidle
  have hcell : ∀ o, y'.cell o = y.toLedger.holdCells ⟨selection, .selected, owner⟩ o :=
    fun o => congrArg (fun l => l.cell o) hledger
  have hbefore : ∀ o, y.toLedger.cell o = x.cell o := hy.cell_eq
  refine ⟨hw, fun o ho => ?_, hidle', fun e he => ?_, fun o ho => ?_, ?_⟩
  · obtain ⟨e, he, rfl⟩ := List.mem_map.mp ((hw.mem_iff o).mp ho)
    have hholdable := hadmits.holdable e he
    rw [hbefore] at hholdable
    cases hholdable with
    | free u utxo spendable lock => exact ⟨⟨u, utxo, spendable⟩, lock⟩
    | held u k utxo binding lock howner =>
      -- nothing is bound to an operation that is not on record
      obtain ⟨⟨op, hop, -⟩, -, -⟩ := hx.backs e.outpoint _
        (Cell.binding_eq_some_iff.mpr ⟨u, utxo, binding⟩)
      rw [show x.toLedger.operation selection.operationId = none from hidle'] at hop
      cases hop
  · rw [hcell, ← hbefore]
    rcases y.toLedger.holdCells_cases ⟨selection, .selected, owner⟩ e.outpoint with
      ⟨e', he', heq', heq⟩ | ⟨hnone, -⟩
    · obtain rfl : e' = e := List.inj_on_of_nodup_map hw.effects_nodup he' he heq'
      exact ⟨_, heq⟩
    · exact (hnone e he rfl).elim
  · rw [hcell, ← hbefore]
    rcases y.toLedger.holdCells_cases ⟨selection, .selected, owner⟩ o with
      ⟨e, he, heq, -⟩ | ⟨-, heq⟩
    · exact (ho e he heq).elim
    · exact heq
  · refine ⟨⟨selection.operationId, .selected, saturatingAdd y.tick 1, selection.expiresAt⟩,
      rfl, ?_⟩
    rw [← (funext hy.getOperation_eq : y.getOperation = x.getOperation)]
    exact congrArg Ledger.operation hledger

/-- One call of a preparation writes intents only, or it is an accepted batch. -/
theorem Prepares.step {c : StoreCall} (h : s.Prepares r owner request y c) :
    y.SameTables (exec c y).2 ∨ ∃ selection, s.Drawn r request selection ∧
      s.Unsettled selection ∧ y.getOperation request.operationId = none ∧
        ∀ x : InMemoryStateStore, x.toLedger.Owned → x.SameTables y →
          x.Took owner selection (exec c y).2 := by
  cases h with
  | read hread =>
    rw [exec_read_snd hread]
    exact .inl (.refl y)
  | persist selection => exact .inl (y.sameTables_persistIntent selection)
  | commit id => exact .inl (y.sameTables_markIntentCommitted id)
  | fail id idle => exact .inl (sameTables_markIntentFailed idle)
  | reserve selection drawn idle recorded =>
    rcases y.exec_applyBatch_cases owner selection with ⟨e, he⟩ | ⟨hadmits, y', hok, hledger⟩
    · rw [he]
      exact .inl (.refl y)
    · refine .inr ⟨selection, drawn, recorded, drawn.operationId ▸ idle, fun x hx hsame => ?_⟩
      rw [hok]
      exact took_of_admits hx hsame idle hadmits hledger

/-- Any number of calls of a preparation. -/
abbrev PrepareRun (s r : InMemoryStateStore) (owner : String) (request : SelectionRequest) :
    InMemoryStateStore → InMemoryStateStore → Prop :=
  Program.Steps exec (s.Prepares r owner request) fun _ _ => False

/-- Once the operation is on record, a preparation writes intents only. -/
theorem PrepareRun.sameTables (h : PrepareRun s r owner request y y')
    (hop : y.getOperation request.operationId ≠ none) : y.SameTables y' := by
  induction h with
  | refl => exact .refl y
  | tail _ hstep ih =>
    cases hstep with
    | env he => exact he.elim
    | call c hc =>
      rcases Prepares.step hc with hsame | ⟨-, -, -, hidle, -⟩
      · exact ih.trans hsame
      · exact (hop ((ih.getOperation_eq _).symm.trans hidle)).elim

/-- A preparation leaves the tables alone, or it reserves what it has drawn. -/
theorem PrepareRun.took (h : PrepareRun s r owner request y y') (hx : x.toLedger.Owned)
    (hy : x.SameTables y) : x.SameTables y' ∨ ∃ selection, s.Drawn r request selection ∧
      s.Unsettled selection ∧ x.Took owner selection y' := by
  induction h with
  | refl => exact .inl hy
  | tail _ hstep ih =>
    cases hstep with
    | env he => exact he.elim
    | call c hc =>
      rcases Prepares.step hc with hsame | ⟨selection, hdrawn, hunsettled, hidle, htook⟩
      · exact ih.imp (·.trans hsame) fun ⟨selection, hdrawn, hunsettled, htook⟩ =>
          ⟨selection, hdrawn, hunsettled, htook.sameTables hsame⟩
      · rcases ih with hsame | ⟨selection', hdrawn', -, htook'⟩
        · exact .inr ⟨selection, hdrawn, hunsettled, htook x hx hsame⟩
        · obtain ⟨op, hop, -⟩ := htook'.getOperation
          rw [hdrawn'.operationId, hidle] at hop
          cases hop

/-- What was reserved is told by what it was reserved in, but for the tick. -/
theorem Took.sameRecords (h : x.Took owner selection y) (h' : x.Took owner selection y') :
    y.SameRecords y' := by
  constructor
  · intro id
    obtain ⟨op, hphase, hop⟩ := h.operation
    obtain ⟨op', hphase', hop'⟩ := h'.operation
    rw [hop, hop', Function.update_apply, Function.update_apply]
    split_ifs
    · rw [Option.map_some, Option.map_some, hphase, hphase']
    · rfl
  · intro o
    by_cases hmem : ∃ e ∈ selection.effects, e.outpoint = o
    · obtain ⟨e, he, rfl⟩ := hmem
      obtain ⟨tick, htick⟩ := h.taken e he
      obtain ⟨tick', htick'⟩ := h'.taken e he
      rw [htick, htick', Cell.undated_hold _ tick tick']
    · rw [h.others o fun e he heq => hmem ⟨e, he, heq⟩,
        h'.others o fun e he heq => hmem ⟨e, he, heq⟩]

/-! ### What a preparation leaves alone -/

/-- A selection that is ready is reserved, if nothing of its operation is settled. -/
theorem Ready.took (hready : x.Ready selection) (hx : x.toLedger.Owned)
    (hidle : x.getOperation selection.operationId = none) (hunsettled : x.Unsettled selection)
    (owner : String) : ∃ y, Program.run exec (Orchestrator.applySelection owner selection) x =
      (.ok (), y) ∧ x.Took owner selection y := by
  rcases x.exec_persistIntent_cases selection with
    ⟨i, hi, hsel, -⟩ | ⟨i, x₁, hpersist, hsel, hsame, hi, hstart⟩
  · rcases hunsettled with hnone | ⟨j, hj, -, hsel'⟩
    · rw [hnone] at hi
      cases hi
    · cases hi.symm.trans hj
      exact (hsel hsel').elim
  have hp : i.status = .pending := by
    rcases hstart with ⟨-, hp⟩ | hsome
    · exact hp
    · rcases hunsettled with hnone | ⟨j, hj, hp, -⟩
      · rw [hnone] at hsome
        cases hsome
      · cases hsome.symm.trans hj
        exact hp
  have hidle₁ : x₁.getOperation selection.operationId = none :=
    (hsame.getOperation_eq _).trans hidle
  have hadmits : x₁.toLedger.Admits ⟨selection, .selected, owner⟩ := by
    refine hready.admits owner ?_ ?_ (funext hsame.cell_eq) (fun j hj => ?_) hidle₁
    · exact funext fun id => congrArg (fun t : Dict _ _ => t.get id) hsame.accounts
    · exact funext fun id => congrArg (fun t : Dict _ _ => t.get id) hsame.scopes
    · cases hi.symm.trans hj
      exact ⟨by rw [hp]; decide, hsel⟩
  obtain ⟨x₂, hx₂⟩ : ∃ x₂, (x₁.applyBatch ⟨selection, .selected, owner⟩).2 = x₂ := ⟨_, rfl⟩
  have hcommit := commitSelection_of_admits hadmits
  have happlied := (toLedger_applyBatch_of_admits hadmits).2
  rw [hx₂] at hcommit happlied
  have hi₂ : x₂.getIntent selection.operationId = some i :=
    (congrFun (congrArg Ledger.intent happlied) _).trans hi
  obtain ⟨x₃, hmark, -⟩ := exec_markIntentCommitted hi₂ hp
  have htables := x₂.sameTables_markIntentCommitted selection.operationId
  rw [show (x₂.markIntentCommitted selection.operationId).2 = x₃ from congrArg Prod.snd hmark]
    at htables
  refine ⟨x₃, ?_, (took_of_admits hx hsame hidle₁ hadmits happlied).sameTables htables⟩
  unfold Orchestrator.applySelection
  have hrecord : Program.run exec (Orchestrator.persistSelectionIntent selection) x = (.ok i, x₁) :=
    hpersist
  rw [Program.run_bind_ok _ hrecord]
  exact ((commitRecordedIntent_pending _ hi hp).1 x₂ (hsel ▸ hcommit)).trans hmark

/-- A preparation that is proposed `selection` reserves it. -/
theorem took_prepareOperation (owner : String) (hk : x.WellKeyed) (hx : x.toLedger.Owned)
    (hok : Program.eval exec (Orchestrator.proposeOperation request) x = .ok selection)
    (hidle : x.getOperation selection.operationId = none) (hunsettled : x.Unsettled selection) :
    x.Took owner selection
      (Program.run exec ((Orchestrator.Method.prepareOperation request).program owner) x).2 := by
  have hpropose := Program.OnlyCalls.run_eq reads_snd
    (Orchestrator.proposeOperation_onlyReads request) x
  rw [hok] at hpropose
  obtain ⟨y, hrun, htook⟩ := (proposeOperation_proposed hk hok).ready hk |>.took hx hidle
    hunsettled owner
  rw [prepareOperation_program, Program.run_bind_ok _ hpropose, hrun]
  exact htook

/-- A reservation next to a reconciliation is the same whether it comes before or after. -/
theorem Took.reconciled (hd : snapshot.Distinct) (hs : s.WellKeyed) (hy : y.WellKeyed)
    (h : (s.reconciled snapshot).Took owner selection y') (h' : s.Took owner selection y) :
    y'.SameRecords (y.reconciled snapshot) := by
  have hrecord : ∀ x : InMemoryStateStore, ∀ id,
      (x.reconciled snapshot).getOperation id = x.getOperation id :=
    fun x => getOperation_applyPlan snapshot x x
  constructor
  · intro id
    obtain ⟨op, hphase, hop⟩ := h.operation
    obtain ⟨op', hphase', hop'⟩ := h'.operation
    rw [hrecord, hop, hop', funext (hrecord s), Function.update_apply, Function.update_apply]
    split_ifs
    · rw [Option.map_some, Option.map_some, hphase, hphase']
    · rfl
  · intro o
    rw [cell_reconciled_of_distinct hy hd]
    by_cases hmem : ∃ e ∈ selection.effects, e.outpoint = o
    · obtain ⟨e, he, rfl⟩ := hmem
      have hinput := (h.wellFormed.mem_iff _).mpr (List.mem_map.mpr ⟨e, he, rfl⟩)
      obtain ⟨⟨u, hu, hspendable⟩, -⟩ := h'.free _ hinput
      obtain ⟨⟨v, hv, hspendable'⟩, -⟩ := h.free _ hinput
      have hcell := cell_reconciled_of_distinct hs hd e.outpoint
      obtain ⟨hsame, hsame'⟩ := Cell.reconcile_of_spendable hu hspendable
        ((congrArg Cell.utxo hcell).symm.trans hv) hspendable'
      obtain ⟨tick, htick⟩ := h.taken e he
      obtain ⟨tick', htick'⟩ := h'.taken e he
      rw [htick, htick', hcell, hsame, hsame', Cell.undated_hold _ tick tick']
    · rw [h.others o fun e he heq => hmem ⟨e, he, heq⟩,
        h'.others o fun e he heq => hmem ⟨e, he, heq⟩, cell_reconciled_of_distinct hs hd]

/-- Once its intent is committed, a preparation writes no more than intents. -/
theorem sameTables_prepareOperation (owner : String) (h : s.LeadsTo r)
    (hs : Run freeRules empty s) (hr : Run freeRules empty r) {j : OperationIntent}
    (hj : s.getIntent request.operationId = some j) (hcommitted : j.status = .committed) :
    r.SameTables (Program.run exec ((Orchestrator.Method.prepareOperation request).program owner)
      r).2 := by
  have hmeets := meets_prepareOperation h hs hr owner request
    ⟨.inr (.refl r), h.intents⟩
  have hrun : PrepareRun s r owner request r _ := hmeets.steps_of_run Meddles.refl
  rcases hrun.took (Run.owned hr) (.refl r) with hsame | ⟨selection, hdrawn, hunsettled, -⟩
  · exact hsame
  · unfold Unsettled at hunsettled
    rw [hdrawn.operationId, hj] at hunsettled
    rcases hunsettled with hnone | ⟨i, hi, hpending, -⟩
    · cases hnone
    · cases hi
      rw [hcommitted] at hpending
      cases hpending

end States

/-! ## Next to a reconciliation -/

section Overlap

variable {snapshot : ObservationSnapshot} {listed found s' y' t t' : InMemoryStateStore}

theorem SameTables.sameUpTo {f : Cell → Cell} (h : s.SameTables y) : y.SameUpTo f s :=
  .of_eq (fun id => congrArg _ (h.getOperation_eq id)) h.cell_eq

theorem SameTables.matches (hy : y.SameTables s') (ht : t.SameTables t')
    (h : Matches snapshot listed found y t) : Matches snapshot listed found s' t' where
  standing := by
    refine ⟨fun id => ?_, fun o => ?_⟩
    · rw [hy.getOperation_eq, ht.getOperation_eq]
      exact h.standing.phase id
    · rw [hy.cell_eq, ht.cell_eq]
      exact h.standing.cell o
  unchanged o ho := by
    rw [hy.cell_eq, ht.cell_eq]
    exact h.unchanged o ho

/-- An operation is not on record in a store it can be reserved in. -/
theorem Took.not_sameTables (h : s.Took owner selection y) : ¬ s.SameTables y := by
  intro hsame
  obtain ⟨op, hop, -⟩ := h.getOperation
  rw [hsame.getOperation_eq, h.idle] at hop
  cases hop

theorem Run.reconciled (h : Run freeRules empty s) (snapshot : ObservationSnapshot) :
    Run freeRules empty (s.reconciled snapshot) :=
  h.tail (.call (StoreCall.applyReconciliation (ReconciliationPlanner.planFor s.listUtxos snapshot))
    trivial)

theorem Succeeds.meddled {α : Type} {id : OperationId} {res : DomainResult α}
    (hy : s.Succeeds id res y) (h : s.Meddles r y y') : s.Succeeds id res y' := fun a ha => by
  rw [show y'.getOperation id = y.getOperation id from
    congrArg (fun t : Dict _ _ => t.get id) h.operations]
  exact hy a ha

/-- What an interleaving with a preparation may leave: a serial order, an error without a
reservation, or the reservation of a candidate that the reconciled store offers. -/
inductive PreparedNextTo (snapshot : ObservationSnapshot) (owner : String)
    (request : SelectionRequest) (s listed found : InMemoryStateStore) (res : DomainResult Unit)
    (s' : InMemoryStateStore) : Prop where
  | before (matched : Matches snapshot listed found s' (s.reconciledBefore snapshot
      ((Orchestrator.Method.prepareOperation request).program owner)))
  | after (matched : Matches snapshot listed found s' (s.reconciledAfter snapshot
      ((Orchestrator.Method.prepareOperation request).program owner)))
  | refused (e : DomainError) (error : res = .error e)
      (records : s'.SameRecords (s.reconciled snapshot))
  | candidate (selection : OperationSelection)
      (chosen : (s.reconciled snapshot).Candidate request selection)
      (records : s'.SameRecords (Program.run exec (Orchestrator.applySelection owner selection)
        (s.reconciled snapshot)).2)

section Prepared

variable {q' : Client Unit} {res : DomainResult Unit} (hs : Run freeRules empty s)
  (hd : snapshot.Distinct)

include hs hd

/-- The plan is applied before anything is reserved. -/
theorem preparedNextTo_of_sameTables (hlisted : s.SameTables listed) (hfound : s.SameTables found)
    (hmeets : q'.Meets exec (s.Meddles (s.reconciled snapshot))
      (s.Prepares (s.reconciled snapshot) owner request) (s.Succeeds request.operationId) found)
    (hleft : Program.run exec q' (applyPlan snapshot listed found) = (res, s')) :
    s.PreparedNextTo snapshot owner request listed found res s' := by
  have hleads := leadsTo_reconciled snapshot s
  have hr := hs.reconciled snapshot
  have hplan : (s.reconciled snapshot).SameTables (applyPlan snapshot listed found) :=
    hlisted.applyPlan hfound
  obtain ⟨-, -, hoperations, hintents⟩ := applyPlan_tables snapshot listed found
  have hmeddles : s.Meddles (s.reconciled snapshot) found (applyPlan snapshot listed found) :=
    ⟨hoperations, hintents, fun _ => .inr hplan, fun _ => hplan⟩
  have hmeets' := hmeets.rely_left (fun _ _ _ h h' => h.trans h') (fun _ _ _ h h' => h.meddled h')
    hmeddles
  have hrun : PrepareRun s _ owner request (applyPlan snapshot listed found) _ :=
    hmeets'.steps_of_run Meddles.refl
  have hend := hmeets'.of_run Meddles.refl
  rw [hleft] at hrun hend
  have hidle : ∀ id, (s.reconciled snapshot).getOperation id = s.getOperation id :=
    getOperation_applyPlan snapshot s s
  rcases hrun.took (Run.owned hr) hplan with hsame | ⟨selection, hdrawn, hunsettled, htook⟩
  · cases res with
    | error e => exact .refused e rfl hsame.sameUpTo
    | ok u =>
      rcases hend u rfl with ⟨hnone, hsome⟩ | ⟨i, hi, hcommitted⟩
      · rw [hsame.getOperation_eq, hidle, hnone] at hsome
        cases hsome
      · have hserial := sameTables_prepareOperation owner hleads hs hr hi hcommitted
        exact .before (SameTables.matches hsame hserial (.refl _))
  · have hsettled : s.getOperation selection.operationId = none := (hidle _).symm.trans htook.idle
    have hunsettled' : (s.reconciled snapshot).Unsettled selection := by
      unfold Unsettled
      rw [show (s.reconciled snapshot).getIntent = s.getIntent from
        congrArg Dict.get hleads.intents]
      exact hunsettled
    rcases hdrawn.proposable hleads hr.wellKeyed htook.free with heval | heval | hcandidate
    · have hserial := took_prepareOperation owner hs.wellKeyed (Run.owned hs) heval
        hsettled hunsettled
      have hkeyed := wellKeyed_run hs.wellKeyed
        ((Orchestrator.Method.prepareOperation request).program owner)
      exact .after (htook.reconciled hd hs.wellKeyed hkeyed hserial).matches
    · exact .before (htook.sameRecords (took_prepareOperation owner hr.wellKeyed (Run.owned hr) heval
        htook.idle hunsettled')).matches
    · obtain ⟨x, hx, htook'⟩ := (hcandidate.proposed.ready hr.wellKeyed).took (Run.owned hr)
        htook.idle hunsettled' owner
      refine .candidate selection hcandidate ?_
      rw [hx]
      exact htook.sameRecords htook'

omit hs hd in
/-- The plan is applied after the reservation. -/
theorem matches_of_took (hfound : s.Took owner selection found)
    (hid : selection.operationId = request.operationId)
    (hmeets : q'.Meets exec (s.Meddles (s.reconciled snapshot))
      (s.Prepares (s.reconciled snapshot) owner request) (s.Succeeds request.operationId) found)
    (hleft : Program.run exec q' (applyPlan snapshot listed found) = (res, s'))
    (hplan : Matches snapshot listed found (applyPlan snapshot listed found)
      (found.reconciled snapshot)) :
    Matches snapshot listed found s' ((Program.run exec q' found).2.reconciled snapshot) := by
  obtain ⟨op, hop, -⟩ := hfound.getOperation
  rw [hid] at hop
  have hafter : ∀ {x : InMemoryStateStore}, x.getOperation request.operationId = none →
      ¬ x.SameTables found := by
    intro x hnone hsame
    rw [hsame.getOperation_eq, hnone] at hop
    cases hop
  have hidle : s.getOperation request.operationId = none := hid ▸ hfound.idle
  have hidle' : (s.reconciled snapshot).getOperation request.operationId = none :=
    (getOperation_applyPlan snapshot s s _).trans hidle
  obtain ⟨-, -, hoperations, hintents⟩ := applyPlan_tables snapshot listed found
  have hmeddles : s.Meddles (s.reconciled snapshot) found (applyPlan snapshot listed found) :=
    ⟨hoperations, hintents, fun h => (hafter hidle h).elim, fun h => (hafter hidle' h).elim⟩
  have hmeets' := hmeets.rely_left (fun _ _ _ h h' => h.trans h') (fun _ _ _ h h' => h.meddled h')
    hmeddles
  have hrun : PrepareRun s _ owner request (applyPlan snapshot listed found) _ :=
    hmeets'.steps_of_run Meddles.refl
  have halone : PrepareRun s _ owner request found _ := hmeets.steps_of_run Meddles.refl
  rw [hleft] at hrun
  have hsome : ∀ {x : InMemoryStateStore}, x.getOperation request.operationId = some op →
      x.getOperation request.operationId ≠ none := fun h h' => by
    rw [h] at h'
    cases h'
  have hsame := halone.sameTables (hsome hop)
  refine SameTables.matches (hrun.sameTables (hsome ?_)) (hsame.applyPlan hsame) hplan
  rw [getOperation_applyPlan]
  exact hop

/-- What an interleaving with a preparation leaves. -/
theorem Overlap.prepared
    (h : Overlap snapshot ((Orchestrator.Method.prepareOperation request).program owner) s listed
      q' found res s') : s.PreparedNextTo snapshot owner request listed found res s' := by
  have hkeeps : Keeps localRules []
      ((Orchestrator.Method.prepareOperation request).program owner) :=
    .bind (keeps_prepareOperation owner request) fun _ => .pure _
  obtain ⟨hlistedKeyed, hfoundKeyed, hcontinues⟩ := h.continues hs.wellKeyed hkeeps
  obtain ⟨⟨q₁, hlisted, hfound⟩, hleft⟩ := h
  have hmeets := meets_prepareOperation (leadsTo_reconciled snapshot s) hs (hs.reconciled snapshot)
    owner request (.start s _)
  have hmeets₁ := hlisted.meets Meddles.refl hmeets
  have hmeets' := hfound.meets Meddles.refl hmeets₁
  have hrun : PrepareRun s _ owner request s listed :=
    hmeets.steps_of_cut Meddles.refl hlisted.cut
  have hrun₁ : PrepareRun s _ owner request listed found :=
    hmeets₁.steps_of_cut Meddles.refl hfound.cut
  have hrun₂ : PrepareRun s _ owner request s found := hrun.trans hrun₁
  rcases hrun₂.took (Run.owned hs) (.refl s) with
    hsame | ⟨selection, hdrawn, -, htook⟩
  · rcases hrun.took (Run.owned hs) (.refl s) with hsame₁ | ⟨selection, hdrawn, -, htook⟩
    · exact preparedNextTo_of_sameTables hs hd hsame₁ hsame hmeets' hleft
    · obtain ⟨op, hop, -⟩ := htook.getOperation
      have hkept : listed.SameTables found := hrun₁.sameTables (by
        rw [← hdrawn.operationId, hop]
        exact Option.some_ne_none op)
      exact (htook.sameTables hkept).not_sameTables hsame |>.elim
  · refine .after ?_
    unfold reconciledAfter
    rw [hlisted.run_eq, hfound.run_eq]
    exact matches_of_took htook hdrawn.operationId hmeets' hleft
      (matches_applyPlan hd hlistedKeyed hfoundKeyed hcontinues)

end Prepared

end Overlap

end InMemoryStateStore

end Txoscope
