import Txoscope.Core.Holding
import Txoscope.Memory.Runs

/-!
# What committing does

`commit_selection` reads until every check has passed and then applies one batch. `checkCommit` is
the checks as a function of the ledger; `run_commitSelection` reduces a commit to them and the
batch. A refusal that names an outpoint as contended is always about an input of the selection
that the operation does not hold.
-/

namespace Txoscope

/-! ## Errors -/

/-- Every error the computation can end with satisfies `P`. -/
def FailsOnly {α : Type} (P : DomainError → Prop) (r : DomainResult α) : Prop :=
  ∀ e, r = .error e → P e

namespace FailsOnly

variable {P : DomainError → Prop}

theorem ok {α : Type} (a : α) : FailsOnly P (.ok a : DomainResult α) := fun _ h => (nomatch h)

theorem error {α : Type} {e : DomainError} (h : P e) :
    FailsOnly P (.error e : DomainResult α) := by
  intro e' he'
  cases he'
  exact h

/-- What follows may use the result that it follows. -/
theorem bind_ok {α β : Type} {r : DomainResult α} {f : α → DomainResult β} (hr : FailsOnly P r)
    (hf : ∀ a, r = .ok a → FailsOnly P (f a)) : FailsOnly P (r >>= f) := by
  cases r with
  | error e => exact error (hr e rfl)
  | ok a => exact hf a rfl

theorem bind {α β : Type} {r : DomainResult α} {f : α → DomainResult β} (hr : FailsOnly P r)
    (hf : ∀ a, FailsOnly P (f a)) : FailsOnly P (r >>= f) := hr.bind_ok fun a _ => hf a

theorem forM {α : Type} {f : α → DomainResult Unit} {as : List α}
    (hf : ∀ a ∈ as, FailsOnly P (f a)) : FailsOnly P (forM as f) := by
  induction as with
  | nil => exact ok ()
  | cons a as ih =>
    rw [List.forM_cons]
    exact (hf a List.mem_cons_self).bind fun _ => ih fun b hb => hf b (List.mem_cons_of_mem _ hb)

theorem mono {α : Type} {Q : DomainError → Prop} {r : DomainResult α} (hr : FailsOnly P r)
    (h : ∀ e, P e → Q e) : FailsOnly Q r := fun e he => h e (hr e he)

end FailsOnly

/-- An error that blames neither the backend nor another operation's lock. -/
structure DomainError.Plain (e : DomainError) : Prop where
  storage : ∀ reason, e ≠ .storage reason
  contended : Orchestrator.contendedOutpoint e = none

/-- An error that names `o`, if any output, as one that may be locked by another operation. -/
structure DomainError.About (e : DomainError) (o : OutPoint) : Prop where
  storage : ∀ reason, e ≠ .storage reason
  contended : ∀ o', Orchestrator.contendedOutpoint e = some o' → o' = o

/-- An error of a check on what is recorded. -/
def DomainError.OfRecords : DomainError → Prop
  | corruptedState _ | accountNotFound _ | scopeNotFound _ | missingAccountCapabilities _
  | missingCapabilities _ | invalidScopeOwnership _ _ | utxoNotFound _ | intentConflict _
  | intentNotPending _ | invalidOperationTransition _ _ _ => True
  | _ => False

theorem DomainError.OfRecords.plain {e : DomainError} (h : e.OfRecords) : e.Plain := by
  cases e <;> first | exact h.elim | exact ⟨fun _ h => (by cases h), rfl⟩

/-- An error of a commit: it is about what is recorded, or about an input that is not free. -/
def DomainError.OfCommit : DomainError → Prop
  | utxoUnavailable _ _ | utxoPolicyBlocked _ _ | observationConflict _ _ => True
  | e => e.OfRecords

theorem DomainError.OfRecords.ofCommit {e : DomainError} (h : e.OfRecords) : e.OfCommit := by
  cases e <;> first | exact h | exact h.elim

/-- An error that does not report a corrupted state. -/
def DomainError.Sane : DomainError → Prop
  | corruptedState _ => False
  | _ => True

/-- The error blames the request itself. -/
def DomainError.OfRequest (e : DomainError) : Prop := ∃ reason, e = invalidRequest reason

theorem DomainError.OfRequest.sane {e : DomainError} (h : e.OfRequest) : e.Sane := by
  obtain ⟨reason, rfl⟩ := h
  trivial

/-- An error of a check that looks up what is recorded. -/
structure DomainError.OfLookup (e : DomainError) : Prop where
  ofRecords : e.OfRecords
  sane : e.Sane

theorem lockRefusal_ofCommit (u : ManagedUtxo) (lockPresent : Bool) (o : OutPoint) :
    (lockRefusal u lockPresent o).OfCommit := by
  unfold lockRefusal
  split_ifs <;> trivial

theorem lockRefusal_sane (u : ManagedUtxo) (lockPresent : Bool) (o : OutPoint) :
    (lockRefusal u lockPresent o).Sane := by
  unfold lockRefusal
  split_ifs <;> trivial

theorem lockRefusal_about (u : ManagedUtxo) (lockPresent : Bool) (o : OutPoint) :
    (lockRefusal u lockPresent o).About o := by
  unfold lockRefusal
  split_ifs
  · exact ⟨fun _ h => (nomatch h), fun o' h => (Option.some.inj h).symm⟩
  · exact ⟨fun _ h => (nomatch h), fun o' h => (nomatch h)⟩
  · exact ⟨fun _ h => (nomatch h), fun o' h => (Option.some.inj h).symm⟩

namespace OperationSelection

variable {getAccount : AccountId → Option Account} {getScope : WalletScopeId → Option WalletScope}
  {getUtxo : OutPoint → Option ManagedUtxo}

theorem collectEffects_ofRecords (effects : List SelectionEffect) (seen : Finset OutPoint) :
    FailsOnly DomainError.OfRecords (collectEffects effects seen) := by
  induction effects generalizing seen with
  | nil => exact .ok _
  | cons effect effects ih =>
    unfold collectEffects
    split_ifs
    · exact .error trivial
    · exact ih _

theorem validateStructure_ofRecords (selection : OperationSelection) :
    FailsOnly DomainError.OfRecords selection.validateStructure := by
  refine (collectEffects_ofRecords _ _).bind fun effects => ?_
  dsimp only
  split_ifs
  · exact .error trivial
  · exact .ok ()

/-- The checks on structure are no matter to a selection that is well-formed. -/
theorem WellFormed.validateStructure_fails {selection : OperationSelection}
    (h : selection.WellFormed) (P : DomainError → Prop) :
    FailsOnly P selection.validateStructure := by
  rw [validateStructure_eq_ok_iff.mpr h]
  exact .ok ()

theorem validateScope_ofLookup (accountId : AccountId) (scopeId : WalletScopeId)
    (required : CapabilitySet) :
    FailsOnly DomainError.OfLookup (validateScope (m := DomainResult) (fun id => .ok (getAccount id))
      (fun id => .ok (getScope id)) accountId scopeId required) := by
  unfold validateScope
  refine FailsOnly.bind (.ok (getAccount accountId)) fun account => ?_
  cases account with
  | none => exact .error ⟨trivial, trivial⟩
  | some account =>
    dsimp only
    split_ifs
    · exact .error ⟨trivial, trivial⟩
    · refine FailsOnly.bind (.ok (getScope scopeId)) fun scope => ?_
      cases scope with
      | none => exact .error ⟨trivial, trivial⟩
      | some scope =>
        dsimp only
        split_ifs
        · exact .error ⟨trivial, trivial⟩
        · exact .error ⟨trivial, trivial⟩
        · exact .ok ()

theorem validateEffects_ofLookup (effects : List SelectionEffect) (changeRequired : CapabilitySet) :
    FailsOnly DomainError.OfLookup (validateEffects (m := DomainResult)
      (fun id => .ok (getAccount id)) (fun id => .ok (getScope id)) (fun o => .ok (getUtxo o))
      effects changeRequired) := by
  induction effects generalizing changeRequired with
  | nil => exact .ok _
  | cons effect effects ih =>
    unfold validateEffects
    refine FailsOnly.bind (.ok (getUtxo effect.outpoint)) fun utxo => ?_
    cases utxo with
    | none => exact .error ⟨trivial, trivial⟩
    | some utxo => exact (validateScope_ofLookup _ _ _).bind fun _ => ih _

/-- A selection is refused for its structure, or by a look-up. -/
theorem validateCapabilities_fails {P : DomainError → Prop} (hlookup : ∀ e, e.OfLookup → P e)
    {selection : OperationSelection} (hstructure : FailsOnly P selection.validateStructure) :
    FailsOnly P (selection.validateCapabilities (m := DomainResult)
      (fun id => .ok (getAccount id)) (fun id => .ok (getScope id))
      (fun o => .ok (getUtxo o))) := by
  unfold validateCapabilities
  cases h : selection.validateStructure with
  | error e => exact .error (hstructure e h)
  | ok u =>
    refine ((validateEffects_ofLookup _ _).mono hlookup).bind fun change => ?_
    refine FailsOnly.bind (.ok (getScope selection.changeScopeId)) fun scope => ?_
    cases scope with
    | none => exact .error (hlookup _ ⟨trivial, trivial⟩)
    | some scope => exact (validateScope_ofLookup _ _ _).mono hlookup

end OperationSelection

/-- The check of one effect in `validate_selection`, on its own cell. -/
def Cell.checkCommit (id : OperationId) (outpoint : OutPoint) (c : Cell) : DomainResult Unit :=
  match c.utxo with
  | none => .error (.utxoNotFound outpoint)
  | some u =>
    if u.isPolicySpendable ∧ c.lock = none then .ok ()
    else if alreadyApplied id .selected u c.lock then .ok ()
    else .error (lockRefusal u c.lock.isSome outpoint)

namespace Ledger

/-- An operation on record must still be `Selected`. -/
def checkSelected (l : Ledger) (id : OperationId) : DomainResult Unit :=
  match l.operation id with
  | some operation =>
    if operation.phase ≠ .selected then
      .error (.invalidOperationTransition id operation.phase .selected)
    else .ok ()
  | none => .ok ()

/-- Every check of `commit_selection` before its batch. -/
def checkCommit (l : Ledger) (selection : OperationSelection) : DomainResult Unit := do
  l.checkSelected selection.operationId
  selection.validateCapabilities (m := DomainResult) (fun id => .ok (l.account id))
    (fun id => .ok (l.scope id)) (fun o => .ok (l.utxo o))
  forM selection.effects fun effect =>
    (l.cell effect.outpoint).checkCommit selection.operationId effect.outpoint

/-! ## Refusals -/

/-- A refusal of a selection: what it names as contended is an input its operation does not
hold. -/
structure Refuses (l : Ledger) (selection : OperationSelection) (e : DomainError) : Prop where
  storage : ∀ reason, e ≠ .storage reason
  contended : ∀ o, Orchestrator.contendedOutpoint e = some o →
    o ∈ selection.effectOutpoints ∧ ¬ (l.cell o).HeldBy selection.operationId .selected

variable {l : Ledger} {selection : OperationSelection}

theorem Refuses.of_plain {e : DomainError} (h : e.Plain) : l.Refuses selection e :=
  ⟨h.storage, fun o ho => by rw [h.contended] at ho; cases ho⟩

/-- A refusal of an effect is one of the selection, if the effect's output is not held. -/
theorem Refuses.of_about {e : DomainError} {effect : SelectionEffect}
    (h : e.About effect.outpoint) (he : effect ∈ selection.effects)
    (hheld : ¬ (l.cell effect.outpoint).HeldBy selection.operationId .selected) :
    l.Refuses selection e := by
  refine ⟨h.storage, fun o ho => ?_⟩
  obtain rfl := h.contended o ho
  exact ⟨List.mem_map.mpr ⟨effect, he, rfl⟩, hheld⟩

theorem checkSelected_ofLookup (id : OperationId) :
    FailsOnly DomainError.OfLookup (l.checkSelected id) := by
  unfold checkSelected
  cases l.operation id with
  | none => exact .ok ()
  | some operation =>
    dsimp only
    split_ifs
    · exact .error ⟨trivial, trivial⟩
    · exact .ok ()

/-- A commit is refused by a look-up, for the structure of the selection or for an input. -/
theorem checkCommit_fails {P : DomainError → Prop} (hlookup : ∀ e, e.OfLookup → P e)
    (hstructure : FailsOnly P selection.validateStructure)
    (heffects : ∀ effect ∈ selection.effects, FailsOnly P
      ((l.cell effect.outpoint).checkCommit selection.operationId effect.outpoint)) :
    FailsOnly P (l.checkCommit selection) := by
  refine ((checkSelected_ofLookup _).mono hlookup).bind fun _ => ?_
  refine (OperationSelection.validateCapabilities_fails hlookup hstructure).bind fun _ => ?_
  exact .forM heffects

theorem cell_checkCommit_refuses {effect : SelectionEffect} (he : effect ∈ selection.effects) :
    FailsOnly (l.Refuses selection)
      ((l.cell effect.outpoint).checkCommit selection.operationId effect.outpoint) := by
  unfold Cell.checkCommit
  cases hu : (l.cell effect.outpoint).utxo with
  | none => exact .error (.of_plain ⟨fun _ h => (by cases h), rfl⟩)
  | some u =>
    dsimp only
    split_ifs with hfree happ
    · exact .ok ()
    · exact .ok ()
    · exact .error (.of_about (lockRefusal_about _ _ _) he
        fun h => happ ((Cell.heldBy_iff hu).mp h))

theorem checkCommit_refuses : FailsOnly (l.Refuses selection) (l.checkCommit selection) :=
  checkCommit_fails (fun _ h => .of_plain h.ofRecords.plain)
    (selection.validateStructure_ofRecords.mono fun _ h => .of_plain h.plain)
    fun _ he => cell_checkCommit_refuses he

theorem checkBatch_ofLookup (batch : StateBatch) :
    FailsOnly DomainError.OfLookup (l.checkBatch batch) := by
  have hoperation : FailsOnly DomainError.OfLookup
      (match l.operation batch.selection.operationId with
      | some operation =>
        if operation.phase ≠ batch.phase ∨ operation.phase = .rollingBack then
          throw (.invalidOperationTransition batch.selection.operationId operation.phase
            batch.phase)
        else pure ()
      | none => pure () : DomainResult Unit) := by
    cases l.operation batch.selection.operationId with
    | none => exact .ok ()
    | some operation =>
      dsimp only
      split_ifs
      · exact .error ⟨trivial, trivial⟩
      · exact .ok ()
  unfold checkBatch
  cases l.intent batch.selection.operationId with
  | none => exact hoperation
  | some intent =>
    by_cases hf : intent.status = .failed
    · simp only [hf, if_true]
      exact .error ⟨trivial, trivial⟩
    · by_cases hs : intent.selection = batch.selection
      · simp only [hf, hs, if_false, ne_eq, not_true_eq_false]
        exact hoperation
      · simp only [hf, hs, if_false, ne_eq, not_false_eq_true, if_true]
        exact .error ⟨trivial, trivial⟩

/-- A batch is refused by a look-up, for the structure of its selection or for an input. -/
theorem validateBatch_fails {P : DomainError → Prop} (hlookup : ∀ e, e.OfLookup → P e)
    {batch : StateBatch} (hstructure : FailsOnly P batch.selection.validateStructure)
    (heffects : ∀ effect ∈ batch.selection.effects, FailsOnly P
      ((l.cell effect.outpoint).checkHold batch effect)) : FailsOnly P (l.validateBatch batch) := by
  refine ((checkBatch_ofLookup _).mono hlookup).bind fun _ => ?_
  refine (OperationSelection.validateCapabilities_fails hlookup hstructure).bind fun _ => ?_
  exact .forM heffects

theorem checkHold_refuses {batch : StateBatch} (hp : batch.phase = .selected)
    {effect : SelectionEffect} (he : effect ∈ batch.selection.effects) :
    FailsOnly (l.Refuses batch.selection) ((l.cell effect.outpoint).checkHold batch effect) := by
  unfold Cell.checkHold
  cases hu : (l.cell effect.outpoint).utxo with
  | none => exact .error (.of_plain ⟨fun _ h => (by cases h), rfl⟩)
  | some u =>
    dsimp only
    split_ifs with happ
    · exact .error (.of_plain ⟨fun _ h => (by cases h), rfl⟩)
    · exact .ok ()
    · exact .ok ()
    · rw [hp] at happ
      exact .error (.of_about (lockRefusal_about _ _ _) he
        fun h => happ ((Cell.heldBy_iff hu).mp h))

theorem validateBatch_refuses {batch : StateBatch} (hp : batch.phase = .selected) :
    FailsOnly (l.Refuses batch.selection) (l.validateBatch batch) :=
  validateBatch_fails (fun _ h => .of_plain h.ofRecords.plain)
    (batch.selection.validateStructure_ofRecords.mono fun _ h => .of_plain h.plain)
    fun _ he => checkHold_refuses hp he

theorem cell_checkCommit_ofCommit (id : OperationId) (o : OutPoint) (c : Cell) :
    FailsOnly (fun e => e.OfCommit ∧ e.Sane) (c.checkCommit id o) := by
  unfold Cell.checkCommit
  cases c.utxo with
  | none => exact .error ⟨trivial, trivial⟩
  | some u =>
    dsimp only
    split_ifs
    · exact .ok ()
    · exact .ok ()
    · exact .error ⟨lockRefusal_ofCommit _ _ _, lockRefusal_sane _ _ _⟩

theorem cell_checkHold_ofCommit (batch : StateBatch) (effect : SelectionEffect) (c : Cell) :
    FailsOnly (fun e => e.OfCommit ∧ e.Sane) (c.checkHold batch effect) := by
  unfold Cell.checkHold
  cases c.utxo with
  | none => exact .error ⟨trivial, trivial⟩
  | some u =>
    dsimp only
    split_ifs
    · exact .error ⟨trivial, trivial⟩
    · exact .ok ()
    · exact .ok ()
    · exact .error ⟨lockRefusal_ofCommit _ _ _, lockRefusal_sane _ _ _⟩

theorem checkCommit_ofCommit : FailsOnly DomainError.OfCommit (l.checkCommit selection) :=
  checkCommit_fails (fun _ h => h.ofRecords.ofCommit)
    (selection.validateStructure_ofRecords.mono fun _ h => h.ofCommit)
    fun _ _ => (cell_checkCommit_ofCommit _ _ _).mono fun _ h => h.1

theorem validateBatch_ofCommit (batch : StateBatch) :
    FailsOnly DomainError.OfCommit (l.validateBatch batch) :=
  validateBatch_fails (fun _ h => h.ofRecords.ofCommit)
    (batch.selection.validateStructure_ofRecords.mono fun _ h => h.ofCommit)
    fun _ _ => (cell_checkHold_ofCommit _ _ _).mono fun _ h => h.1

theorem checkCommit_sane (h : selection.WellFormed) :
    FailsOnly DomainError.Sane (l.checkCommit selection) :=
  checkCommit_fails (fun _ h => h.sane) (h.validateStructure_fails _)
    fun _ _ => (cell_checkCommit_ofCommit _ _ _).mono fun _ h => h.2

theorem validateBatch_sane {batch : StateBatch} (h : batch.selection.WellFormed) :
    FailsOnly DomainError.Sane (l.validateBatch batch) :=
  validateBatch_fails (fun _ h => h.sane) (h.validateStructure_fails _)
    fun _ _ => (cell_checkHold_ofCommit _ _ _).mono fun _ h => h.2

/-- The checks of a commit pass on everything its batch may hold. -/
theorem checkCommit_of_admits {owner : String} (h : l.Admits ⟨selection, .selected, owner⟩) :
    l.checkCommit selection = .ok () := by
  have hselected : l.checkSelected selection.operationId = .ok () := by
    unfold checkSelected
    cases hop : l.operation selection.operationId with
    | none => rfl
    | some operation => exact if_neg (not_not.mpr (h.operation operation hop).1)
  unfold checkCommit
  rw [hselected]
  change (selection.validateCapabilities (m := DomainResult) _ _ _ >>= _) = _
  rw [OperationSelection.validateCapabilities_eq_ok_iff.mpr h.authorised]
  refine Pointwise.forM_eq_ok_iff.mpr fun effect he => ?_
  unfold Cell.checkCommit
  cases h.holdable effect he with
  | free u utxo spendable lock =>
    rw [utxo]
    exact if_pos ⟨spendable, lock⟩
  | held u k utxo binding lock owner =>
    rw [utxo]
    dsimp only
    rw [if_pos (alreadyApplied_iff.mpr ⟨binding, k, lock, owner⟩)]
    split_ifs <;> rfl

end Ledger

namespace InMemoryStateStore

variable {s : InMemoryStateStore}

/-! ## Evaluating the reads -/

theorem reads_snd (c : StoreCall) (s : InMemoryStateStore) (h : c.IsRead) : (exec c s).2 = s :=
  exec_read_snd h s

/-- One read, and what is done with it. -/
theorem eval_read_bind {α : Type} {c : StoreCall} (h : c.IsRead) (f : c.Out → Client α) :
    Program.eval exec (c.invoke >>= f) s = (exec c s).1 >>= fun a => Program.eval exec (f a) s :=
  Program.OnlyCalls.eval_bind reads_snd (.invoke h) f s

theorem eval_validateScope (accountId : AccountId) (scopeId : WalletScopeId)
    (required : CapabilitySet) :
    Program.eval exec (OperationSelection.validateScope (m := Client)
      (fun id => (StoreCall.getAccount id).invoke) (fun id => (StoreCall.getScope id).invoke)
      accountId scopeId required) s =
    OperationSelection.validateScope (m := DomainResult) (fun id => .ok (s.getAccount id))
      (fun id => .ok (s.getScope id)) accountId scopeId required := by
  unfold OperationSelection.validateScope
  refine (eval_read_bind (c := .getAccount accountId) trivial _).trans
    (bind_congr fun account => ?_)
  cases account with
  | none => rfl
  | some account =>
    dsimp only
    split_ifs
    · rfl
    · refine (eval_read_bind (c := .getScope scopeId) trivial _).trans
        (bind_congr fun scope => ?_)
      cases scope with
      | none => rfl
      | some scope =>
        dsimp only
        split_ifs <;> rfl

theorem eval_validateEffects (effects : List SelectionEffect) (changeRequired : CapabilitySet) :
    Program.eval exec (OperationSelection.validateEffects (m := Client)
      (fun id => (StoreCall.getAccount id).invoke) (fun id => (StoreCall.getScope id).invoke)
      (fun o => (StoreCall.getUtxo o).invoke) effects changeRequired) s =
    OperationSelection.validateEffects (m := DomainResult) (fun id => .ok (s.getAccount id))
      (fun id => .ok (s.getScope id)) (fun o => .ok (s.getUtxo o)) effects changeRequired := by
  induction effects generalizing changeRequired with
  | nil => rfl
  | cons effect effects ih =>
    unfold OperationSelection.validateEffects
    refine (eval_read_bind (c := .getUtxo effect.outpoint) trivial _).trans
      (bind_congr fun utxo => ?_)
    cases utxo with
    | none => rfl
    | some utxo =>
      dsimp only
      rw [Program.OnlyCalls.eval_bind reads_snd
        (OperationSelection.validateScope_onlyReads _ _ _), eval_validateScope]
      exact bind_congr fun _ => ih _

theorem eval_validateCapabilities (selection : OperationSelection) :
    Program.eval exec (selection.validateCapabilities (m := Client)
      (fun id => (StoreCall.getAccount id).invoke) (fun id => (StoreCall.getScope id).invoke)
      (fun o => (StoreCall.getUtxo o).invoke)) s =
    selection.validateCapabilities (m := DomainResult) (fun id => .ok (s.getAccount id))
      (fun id => .ok (s.getScope id)) (fun o => .ok (s.getUtxo o)) := by
  unfold OperationSelection.validateCapabilities
  cases selection.validateStructure with
  | error e => rfl
  | ok u =>
    dsimp only
    rw [Program.OnlyCalls.eval_bind reads_snd
      (OperationSelection.validateEffects_onlyReads _ _), eval_validateEffects]
    refine bind_congr fun change => ?_
    refine (eval_read_bind (c := .getScope selection.changeScopeId) trivial _).trans
      (bind_congr fun scope => ?_)
    cases scope with
    | none => rfl
    | some scope => exact eval_validateScope _ _ _

theorem eval_validateEffect (id : OperationId) (effect : SelectionEffect) :
    Program.eval exec (Orchestrator.validateEffect id effect) s =
      (s.cell effect.outpoint).checkCommit id effect.outpoint := by
  unfold Orchestrator.validateEffect Cell.checkCommit
  refine (eval_read_bind (c := .getUtxo effect.outpoint) trivial _).trans ?_
  have hcell : (s.cell effect.outpoint).utxo = s.getUtxo effect.outpoint := rfl
  have hread : (exec (.getUtxo effect.outpoint) s).1 = .ok (s.getUtxo effect.outpoint) := rfl
  rw [hread, hcell]
  cases s.getUtxo effect.outpoint with
  | none => rfl
  | some u =>
    refine (eval_read_bind (c := .getLock effect.outpoint) trivial _).trans ?_
    change Program.eval exec (if u.isPolicySpendable ∧ s.getLock effect.outpoint = none then _
      else _) s = if u.isPolicySpendable ∧ s.getLock effect.outpoint = none then _ else _
    change _ = if u.isPolicySpendable ∧ s.getLock effect.outpoint = none then _
      else if alreadyApplied id .selected u (s.getLock effect.outpoint) then _ else _
    split_ifs <;> rfl

theorem eval_forEach_validateEffect (id : OperationId) (effects : List SelectionEffect) :
    Program.eval exec (Program.forEach (Orchestrator.validateEffect id) effects) s =
      forM effects fun effect => (s.cell effect.outpoint).checkCommit id effect.outpoint := by
  induction effects with
  | nil => rfl
  | cons effect effects ih =>
    rw [List.forM_cons, ← eval_validateEffect, ← ih]
    exact Program.OnlyCalls.eval_bind reads_snd (Orchestrator.validateEffect_onlyReads _ _) _ _

/-- A commit is its checks, followed by one batch. -/
theorem run_commitSelection (owner : String) (selection : OperationSelection) :
    Program.run exec (Orchestrator.commitSelection owner selection) s =
      match s.toLedger.checkCommit selection with
      | .ok () => s.applyBatch ⟨selection, .selected, owner⟩
      | .error e => (.error e, s) := by
  have hrequire : Program.eval exec (Orchestrator.requireSelected selection.operationId
      (s.getOperation selection.operationId)) s =
        s.toLedger.checkSelected selection.operationId := by
    change _ = match s.getOperation selection.operationId with | some op => _ | none => _
    cases s.getOperation selection.operationId with
    | none => rfl
    | some op =>
      unfold Orchestrator.requireSelected
      dsimp only
      split_ifs <;> rfl
  have hread : Program.run exec (StoreCall.getOperation selection.operationId).invoke s =
      (.ok (s.getOperation selection.operationId), s) := rfl
  unfold Orchestrator.commitSelection Ledger.checkCommit
  rw [Program.run_bind_ok _ hread,
    Program.OnlyCalls.run_bind reads_snd (Orchestrator.requireSelected_onlyReads _ _), hrequire]
  cases s.toLedger.checkSelected selection.operationId with
  | error e => rfl
  | ok u =>
    dsimp only
    unfold Orchestrator.validateSelection
    rw [bind_assoc, Program.OnlyCalls.run_bind reads_snd
      (OperationSelection.validateCapabilities_onlyReads _), eval_validateCapabilities]
    change _ = match (selection.validateCapabilities (m := DomainResult)
      (fun id => .ok (s.getAccount id)) (fun id => .ok (s.getScope id))
      (fun o => .ok (s.getUtxo o)) >>= _) with | .ok () => _ | .error e => _
    cases selection.validateCapabilities (m := DomainResult) (fun id => .ok (s.getAccount id))
        (fun id => .ok (s.getScope id)) (fun o => .ok (s.getUtxo o)) with
    | error e => rfl
    | ok u =>
      dsimp only
      rw [Program.OnlyCalls.run_bind reads_snd
        (.forEach (fun _ => Orchestrator.validateEffect_onlyReads _ _) _),
        eval_forEach_validateEffect]
      change _ = match (forM selection.effects fun effect =>
        (s.cell effect.outpoint).checkCommit selection.operationId effect.outpoint) with
        | .ok () => _ | .error e => _
      cases (forM selection.effects fun effect =>
        (s.cell effect.outpoint).checkCommit selection.operationId effect.outpoint) with
      | error e => rfl
      | ok u => rfl

/-! ## What a commit does -/

variable {s' : InMemoryStateStore} {owner : String} {selection : OperationSelection}

/-- The ledger after the batch of a selection. -/
theorem toLedger_applyBatch_of_admits (h : s.toLedger.Admits ⟨selection, .selected, owner⟩) :
    (s.applyBatch ⟨selection, .selected, owner⟩).1 = .ok () ∧
      (s.applyBatch ⟨selection, .selected, owner⟩).2.toLedger =
        { s.toLedger with
          cell := s.toLedger.holdCells ⟨selection, .selected, owner⟩ }.setOperation
            selection.operationId .selected selection.expiresAt := by
  obtain ⟨hresult, hledger⟩ := toLedger_applyBatch s ⟨selection, .selected, owner⟩
  rw [hresult, hledger]
  unfold Ledger.applyBatch
  rw [Ledger.validateBatch_eq_ok_iff.mpr h]
  exact ⟨rfl, rfl⟩

/-- A selection that may be applied is applied by a commit. -/
theorem commitSelection_of_admits (h : s.toLedger.Admits ⟨selection, .selected, owner⟩) :
    Program.run exec (Orchestrator.commitSelection owner selection) s =
      (.ok (), (s.applyBatch ⟨selection, .selected, owner⟩).2) := by
  rw [run_commitSelection, Ledger.checkCommit_of_admits h]
  exact Prod.ext (toLedger_applyBatch_of_admits h).1 rfl

/-- A commit that succeeds has applied the batch. -/
theorem commitSelection_ok
    (h : Program.run exec (Orchestrator.commitSelection owner selection) s = (.ok (), s')) :
    s.toLedger.Admits ⟨selection, .selected, owner⟩ ∧
      s' = (s.applyBatch ⟨selection, .selected, owner⟩).2 := by
  rw [run_commitSelection] at h
  cases hc : s.toLedger.checkCommit selection with
  | error e =>
    rw [hc] at h
    cases h
  | ok u =>
    rw [hc] at h
    dsimp only at h
    refine ⟨?_, (congrArg Prod.snd h).symm⟩
    have hresult := (toLedger_applyBatch s ⟨selection, .selected, owner⟩).1
    rw [h] at hresult
    unfold Ledger.applyBatch at hresult
    cases hv : s.toLedger.validateBatch ⟨selection, .selected, owner⟩ with
    | error e =>
      rw [hv] at hresult
      cases hresult
    | ok u => exact Ledger.validateBatch_eq_ok_iff.mp hv

/-- A commit that fails has changed nothing, and its error is one of its checks. -/
theorem commitSelection_fails {P : DomainError → Prop}
    (hcommit : FailsOnly P (s.toLedger.checkCommit selection))
    (hbatch : FailsOnly P (s.toLedger.validateBatch ⟨selection, .selected, owner⟩)) {e : DomainError}
    (h : Program.run exec (Orchestrator.commitSelection owner selection) s = (.error e, s')) :
    s' = s ∧ P e := by
  rw [run_commitSelection] at h
  cases hc : s.toLedger.checkCommit selection with
  | error e' =>
    rw [hc] at h
    cases h
    exact ⟨rfl, hcommit _ hc⟩
  | ok u =>
    rw [hc] at h
    dsimp only at h
    unfold applyBatch at h
    cases hp : s.planBatch ⟨selection, .selected, owner⟩ with
    | ok plan =>
      rw [hp] at h
      cases h
    | error e' =>
      have hplan := planBatch_cellsOf s ⟨selection, .selected, owner⟩
      rw [hp] at h hplan
      cases h
      refine ⟨rfl, ?_⟩
      cases hv : s.toLedger.validateBatch ⟨selection, .selected, owner⟩ with
      | ok u =>
        rw [hv] at hplan
        cases hplan
      | error e'' =>
        rw [hv] at hplan
        cases hplan
        exact hbatch _ hv

theorem commitSelection_error {e : DomainError}
    (h : Program.run exec (Orchestrator.commitSelection owner selection) s = (.error e, s')) :
    s' = s ∧ s.toLedger.Refuses selection e :=
  commitSelection_fails Ledger.checkCommit_refuses (Ledger.validateBatch_refuses rfl) h

theorem commitSelection_ofCommit {e : DomainError}
    (h : Program.run exec (Orchestrator.commitSelection owner selection) s = (.error e, s')) :
    e.OfCommit :=
  (commitSelection_fails Ledger.checkCommit_ofCommit (Ledger.validateBatch_ofCommit _) h).2

/-- A commit of a well-formed selection reports no corruption. -/
theorem commitSelection_sane (hw : selection.WellFormed) {e : DomainError}
    (h : Program.run exec (Orchestrator.commitSelection owner selection) s = (.error e, s')) :
    e.Sane :=
  (commitSelection_fails (Ledger.checkCommit_sane hw) (Ledger.validateBatch_sane hw) h).2

/-- The inputs of an applied selection are held by its operation. -/
theorem heldBy_applyBatch (h : s.toLedger.Admits ⟨selection, .selected, owner⟩) {o : OutPoint}
    (ho : o ∈ selection.selectedOutpoints) :
    ((s.applyBatch ⟨selection, .selected, owner⟩).2.cell o).HeldBy selection.operationId
      .selected := by
  have hcell : (s.applyBatch ⟨selection, .selected, owner⟩).2.toLedger.cell o =
      s.toLedger.holdCells ⟨selection, .selected, owner⟩ o := by
    rw [(toLedger_applyBatch_of_admits h).2]
    rfl
  rw [show (s.applyBatch ⟨selection, .selected, owner⟩).2.cell o = _ from hcell]
  obtain ⟨e, he, rfl⟩ := List.mem_map.mp ((h.authorised.wellFormed.mem_iff o).mp ho)
  rcases s.toLedger.holdCells_cases ⟨selection, .selected, owner⟩ e.outpoint with
    ⟨e', he', heq', heq⟩ | ⟨hnone, -⟩
  · rw [heq, ← heq']
    exact Cell.heldBy_hold _ (h.holdable e' he')
  · exact (hnone e he rfl).elim

/-! ## Committing a recorded intent -/

section Recorded

variable {id : OperationId} {i : OperationIntent}

theorem exec_markIntentCommitted (hi : s.getIntent id = some i) (hp : i.status = .pending) :
    ∃ s', exec (.markIntentCommitted id) s = (.ok (), s') ∧
      s'.toLedger = s.toLedger.setStatus id i .committed := by
  obtain ⟨hresult, hledger⟩ := toLedger_markIntentCommitted s id
  have hintent : s.toLedger.intent id = some i := hi
  unfold Ledger.markIntentCommitted at hresult hledger
  rw [hintent] at hresult hledger
  dsimp only at hresult hledger
  rw [if_neg (by rw [hp]; decide)] at hresult hledger
  exact ⟨_, Prod.ext hresult rfl, hledger⟩

/-- An intent for an operation that has none is recorded. -/
theorem exec_persistIntent_fresh (hi : s.getIntent selection.operationId = none) :
    ∃ i s', exec (.persistIntent selection) s = (.ok i, s') ∧ i.selection = selection ∧
      i.status = .pending ∧ s'.toLedger =
        { s.toLedger.nextTick with
          intent := Function.update s.getIntent selection.operationId (some i) } := by
  obtain ⟨hresult, hledger⟩ := toLedger_persistIntent s selection
  have hintent : s.toLedger.intent selection.operationId = none := hi
  unfold Ledger.persistIntent at hresult hledger
  rw [hintent] at hresult hledger
  exact ⟨_, _, Prod.ext hresult rfl, rfl, rfl, hledger⟩

theorem commitRecordedIntent_committed (hi : s.getIntent id = some i)
    (hc : i.status = .committed) :
    Program.run exec (Orchestrator.commitRecordedIntent owner id) s = (.ok (), s) := by
  have hread : Program.run exec (StoreCall.getIntent id).invoke s = (.ok (some i), s) :=
    congrArg (fun r => (Except.ok r, s)) hi
  unfold Orchestrator.commitRecordedIntent
  rw [Program.run_bind_ok _ hread]
  dsimp only
  rw [hc]
  rfl

theorem commitRecordedIntent_failed (hi : s.getIntent id = some i) (hf : i.status = .failed) :
    Program.run exec (Orchestrator.commitRecordedIntent owner id) s =
      (.error (.intentNotPending id), s) := by
  have hread : Program.run exec (StoreCall.getIntent id).invoke s = (.ok (some i), s) :=
    congrArg (fun r => (Except.ok r, s)) hi
  unfold Orchestrator.commitRecordedIntent
  rw [Program.run_bind_ok _ hread]
  dsimp only
  rw [hf]
  rfl

variable (owner) in
/-- A pending intent is committed and marked so, or the call fails. -/
theorem commitRecordedIntent_pending (hi : s.getIntent id = some i) (hp : i.status = .pending) :
    (∀ s', Program.run exec (Orchestrator.commitSelection owner i.selection) s = (.ok (), s') →
      Program.run exec (Orchestrator.commitRecordedIntent owner id) s =
        exec (.markIntentCommitted id) s') ∧
    (∀ e s', Program.run exec (Orchestrator.commitSelection owner i.selection) s =
        (.error e, s') →
      ∃ e' s'', Program.run exec (Orchestrator.commitRecordedIntent owner id) s =
        (.error e', s'')) := by
  have hread : Program.run exec (StoreCall.getIntent id).invoke s = (.ok (some i), s) :=
    congrArg (fun r => (Except.ok r, s)) hi
  have hattempt := Program.run_attempt exec (Orchestrator.commitSelection owner i.selection) s
  unfold Orchestrator.commitRecordedIntent
  rw [Program.run_bind_ok _ hread]
  dsimp only
  rw [hp]
  dsimp only
  rw [Program.run_bind_ok _ hattempt]
  constructor
  · intro s' h
    rw [h]
    rfl
  · intro e s' h
    rw [h]
    dsimp only
    split
    · rename_i heq
      cases heq
    · exact ⟨_, _, rfl⟩
    · rename_i err hnot heq
      rw [Program.run_bind]
      split
      · split_ifs
        · exact ⟨_, _, rfl⟩
        · rw [Program.run_bind]
          split
          · exact ⟨_, _, rfl⟩
          · exact ⟨_, _, rfl⟩
      · exact ⟨_, _, rfl⟩

/-- What `is_pending_lock_conflict` finds. -/
def pendingLockConflict (s : InMemoryStateStore) (id : OperationId) (e : DomainError) : Bool :=
  match Orchestrator.contendedOutpoint e with
  | none => false
  | some o => (s.getLock o).any fun lock =>
      lock.operationId ≠ id && (s.getIntent lock.operationId).any (·.status = .pending)

theorem run_isPendingLockConflict (id : OperationId) (e : DomainError) :
    Program.run exec (Orchestrator.isPendingLockConflict id e) s =
      (.ok (s.pendingLockConflict id e), s) := by
  unfold Orchestrator.isPendingLockConflict pendingLockConflict
  cases Orchestrator.contendedOutpoint e with
  | none => rfl
  | some o =>
    have hread : Program.run exec (StoreCall.getLock o).invoke s = (.ok (s.getLock o), s) := rfl
    dsimp only
    rw [Program.run_bind_ok _ hread]
    cases s.getLock o with
    | none => rfl
    | some lock =>
      dsimp only
      by_cases hid : lock.operationId = id
      · rw [if_pos hid, Option.any_some]
        simp only [hid, ne_eq, not_true_eq_false, decide_false, Bool.false_and]
        rfl
      · rw [if_neg hid, Option.any_some]
        simp only [hid, ne_eq, not_false_eq_true, decide_true, Bool.true_and]
        rfl

/-- Outputs, locks and operations are as before, and every intent but that of `id`. -/
structure IntentOnly (s : InMemoryStateStore) (id : OperationId) (s' : InMemoryStateStore) :
    Prop where
  cell : s'.cell = s.cell
  operation : s'.getOperation = s.getOperation
  intent : ∀ id' ≠ id, s'.getIntent id' = s.getIntent id'

theorem IntentOnly.refl (s : InMemoryStateStore) (id : OperationId) : s.IntentOnly id s :=
  ⟨rfl, rfl, fun _ _ => rfl⟩

theorem IntentOnly.trans {s'' : InMemoryStateStore} (h : s.IntentOnly id s')
    (h' : s'.IntentOnly id s'') : s.IntentOnly id s'' :=
  ⟨h'.cell.trans h.cell, h'.operation.trans h.operation,
    fun id' hne => (h'.intent id' hne).trans (h.intent id' hne)⟩

/-- An intent is recorded, or its status changes. -/
theorem IntentOnly.of_toLedger {i' : Option OperationIntent}
    (h : s'.toLedger = { s.toLedger.nextTick with intent := Function.update s.getIntent id i' }) :
    s.IntentOnly id s' := by
  refine ⟨congrArg Ledger.cell h, congrArg Ledger.operation h, fun id' hne => ?_⟩
  exact (congrFun (congrArg Ledger.intent h) id').trans (Function.update_of_ne hne _ _)

/-- The intent of an operation that does not exist is marked as failed, and that is all. -/
theorem markIntentFailed_of_none (hi : s.getIntent id = some i) (hp : i.status = .pending)
    (hop : s.getOperation id = none) :
    ∃ s', exec (.markIntentFailed id) s = (.ok (), s') ∧ s.IntentOnly id s' := by
  obtain ⟨hresult, hledger⟩ := toLedger_markIntentFailed s id
  have hintent : s.toLedger.intent id = some i := hi
  have hoperation : s.toLedger.operation id = none := hop
  unfold Ledger.markIntentFailed at hresult hledger
  rw [hintent] at hresult hledger
  simp only [hp, hoperation] at hresult hledger
  exact ⟨_, Prod.ext hresult rfl, .of_toLedger hledger⟩

/-- A commit of an operation that does not exist yet, if it fails, changes no more than the intent
of the operation. -/
theorem commitRecordedIntent_error (hi : s.getIntent id = some i) (hp : i.status = .pending)
    (hop : s.getOperation id = none) {e : DomainError}
    (h : Program.run exec (Orchestrator.commitRecordedIntent owner id) s = (.error e, s')) :
    e.OfCommit ∧ s.IntentOnly id s' := by
  have hread : Program.run exec (StoreCall.getIntent id).invoke s = (.ok (some i), s) :=
    congrArg (fun r => (Except.ok r, s)) hi
  have hattempt := Program.run_attempt exec (Orchestrator.commitSelection owner i.selection) s
  unfold Orchestrator.commitRecordedIntent at h
  rw [Program.run_bind_ok _ hread] at h
  dsimp only at h
  rw [hp] at h
  dsimp only at h
  rw [Program.run_bind_ok _ hattempt] at h
  obtain ⟨⟨result, s₁⟩, hcommit⟩ : ∃ x, Program.run exec
      (Orchestrator.commitSelection owner i.selection) s = x := ⟨_, rfl⟩
  rw [hcommit] at h
  cases result with
  | ok u =>
    -- the mark after a commit does not fail
    obtain ⟨hadmits, rfl⟩ := commitSelection_ok hcommit
    have hi₁ : (s.applyBatch ⟨i.selection, .selected, owner⟩).2.getIntent id = some i :=
      (congrFun (congrArg Ledger.intent (toLedger_applyBatch_of_admits hadmits).2) _).trans hi
    obtain ⟨s₂, hmark, -⟩ := exec_markIntentCommitted hi₁ hp
    have hfails : exec (.markIntentCommitted id) (s.applyBatch ⟨i.selection, .selected, owner⟩).2 =
        (.error e, s') := h
    rw [hmark] at hfails
    cases hfails
  | error e₁ =>
    obtain ⟨rfl, -⟩ := commitSelection_error hcommit
    have hof := commitSelection_ofCommit hcommit
    dsimp only at h
    split at h
    · rename_i heq
      cases heq
    · rename_i heq
      cases heq
      exact hof.elim
    · rename_i err hnot heq
      cases heq
      rw [Program.run_bind_ok _ (run_isPendingLockConflict id e₁)] at h
      split_ifs at h
      · cases h
        exact ⟨hof, .refl _ id⟩
      · obtain ⟨s₂, hmark, honly⟩ := markIntentFailed_of_none hi hp hop
        have hrun : Program.run exec (StoreCall.markIntentFailed id).invoke s₁ = (.ok (), s₂) :=
          hmark
        rw [Program.run_bind_ok _ hrun] at h
        cases h
        exact ⟨hof, honly⟩

/-! ## Applying a selection -/

/-- Recording a selection again changes nothing. -/
theorem run_persistSelectionIntent_same (hi : s.getIntent selection.operationId = some i)
    (hsel : i.selection = selection) :
    Program.run exec (Orchestrator.persistSelectionIntent selection) s = (.ok i, s) := by
  change s.persistIntent selection = _
  unfold persistIntent
  rw [show s.intents.get selection.operationId = some i from hi]
  exact if_neg (not_not.mpr hsel)

/-- A selection that its operation has committed already is accepted without any write. -/
theorem applySelection_committed (hi : s.getIntent selection.operationId = some i)
    (hsel : i.selection = selection) (hc : i.status = .committed) :
    Program.run exec (Orchestrator.applySelection owner selection) s = (.ok (), s) := by
  unfold Orchestrator.applySelection
  rw [Program.run_bind_ok _ (run_persistSelectionIntent_same hi hsel)]
  exact commitRecordedIntent_committed hi hc

/-- A commit of a pending intent that succeeds leaves every input held. -/
theorem heldBy_commitRecordedIntent (hi : s.getIntent selection.operationId = some i)
    (hsel : i.selection = selection) (hp : i.status = .pending)
    (h : Program.run exec (Orchestrator.commitRecordedIntent owner selection.operationId) s =
      (.ok (), s')) {o : OutPoint} (ho : o ∈ selection.selectedOutpoints) :
    (s'.cell o).HeldBy selection.operationId .selected := by
  obtain ⟨hcommit, hfail⟩ := commitRecordedIntent_pending owner hi hp
  obtain ⟨⟨result, s₁⟩, hrun⟩ : ∃ x, Program.run exec
      (Orchestrator.commitSelection owner i.selection) s = x := ⟨_, rfl⟩
  cases result with
  | error e =>
    obtain ⟨e', s'', herror⟩ := hfail e s₁ hrun
    rw [h] at herror
    cases herror
  | ok u =>
    rw [hcommit s₁ hrun] at h
    rw [hsel] at hrun
    obtain ⟨hadmits, rfl⟩ := commitSelection_ok hrun
    have hi₁ : (s.applyBatch ⟨selection, .selected, owner⟩).2.getIntent selection.operationId =
        some i :=
      (congrFun (congrArg Ledger.intent (toLedger_applyBatch_of_admits hadmits).2) _).trans hi
    obtain ⟨s₂, hmark, hmarked⟩ := exec_markIntentCommitted hi₁ hp
    rw [h] at hmark
    cases hmark
    rw [show s'.cell o = _ from congrFun (congrArg Ledger.cell hmarked) o]
    exact heldBy_applyBatch hadmits ho

/-- A selection of an operation that does not exist yet, if it is refused, changes no more than the
intent of the operation. -/
theorem applySelection_error (hi : s.getIntent selection.operationId = none)
    (hop : s.getOperation selection.operationId = none) {e : DomainError}
    (h : Program.run exec (Orchestrator.applySelection owner selection) s = (.error e, s')) :
    e.OfCommit ∧ s.IntentOnly selection.operationId s' := by
  obtain ⟨i, s₁, hpersist, -, hp, hrecorded⟩ := exec_persistIntent_fresh hi
  have hrun : Program.run exec (Orchestrator.persistSelectionIntent selection) s = (.ok i, s₁) :=
    hpersist
  have hi₁ : s₁.getIntent selection.operationId = some i :=
    (congrFun (congrArg Ledger.intent hrecorded) _).trans (Function.update_self _ _ _)
  have hop₁ : s₁.getOperation selection.operationId = none :=
    (congrFun (congrArg Ledger.operation hrecorded) _).trans hop
  unfold Orchestrator.applySelection at h
  rw [Program.run_bind_ok _ hrun] at h
  obtain ⟨hof, honly⟩ := commitRecordedIntent_error hi₁ hp hop₁ h
  exact ⟨hof, (IntentOnly.of_toLedger hrecorded).trans honly⟩

/-- A selection is accepted because it was committed before, or its inputs are held now. -/
theorem applySelection_ok
    (h : Program.run exec (Orchestrator.applySelection owner selection) s = (.ok (), s')) :
    (∃ i, s.getIntent selection.operationId = some i ∧ i.selection = selection ∧
      i.status = .committed ∧ s' = s) ∨
    ∀ o ∈ selection.selectedOutpoints, (s'.cell o).HeldBy selection.operationId .selected := by
  unfold Orchestrator.applySelection at h
  cases hi : s.getIntent selection.operationId with
  | none =>
    obtain ⟨i, s₁, hpersist, hsel, hp, hrecorded⟩ := exec_persistIntent_fresh hi
    have hrun : Program.run exec (Orchestrator.persistSelectionIntent selection) s =
        (.ok i, s₁) := hpersist
    rw [Program.run_bind_ok _ hrun] at h
    have hi₁ : s₁.getIntent selection.operationId = some i :=
      (congrFun (congrArg Ledger.intent hrecorded) _).trans (Function.update_self _ _ _)
    exact .inr fun o ho => heldBy_commitRecordedIntent hi₁ hsel hp h ho
  | some i =>
    by_cases hsel : i.selection = selection
    · rw [Program.run_bind_ok _ (run_persistSelectionIntent_same hi hsel)] at h
      cases hst : i.status with
      | pending => exact .inr fun o ho => heldBy_commitRecordedIntent hi hsel hst h ho
      | failed =>
        rw [commitRecordedIntent_failed hi hst] at h
        cases h
      | committed =>
        rw [commitRecordedIntent_committed hi hst] at h
        cases h
        exact .inl ⟨i, rfl, hsel, hst, rfl⟩
    · have hrun : Program.run exec (Orchestrator.persistSelectionIntent selection) s =
          (.error (.intentConflict selection.operationId), s) := by
        change s.persistIntent selection = _
        unfold persistIntent
        rw [show s.intents.get selection.operationId = some i from hi]
        exact if_pos hsel
      rw [Program.run_bind_error _ hrun] at h
      cases h

end Recorded

end InMemoryStateStore

end Txoscope
