import Mathlib.Logic.Relation
import Txoscope.Core.Ownership

/-!
# Lifecycles over whole runs

Phases only move forward, an intent keeps its selection and leaves `Pending` once, an operation
that owns something is live, and an outpoint whose transaction is on its way to the chain is never
given to another operation. Each is what one move keeps, carried over a run.
-/

namespace Txoscope

/-- The position of a phase in the lifecycle, with `RollingBack` last. -/
def OperationPhase.rank : OperationPhase → ℕ
  | selected => 0
  | constructing => 1
  | signed => 2
  | broadcast => 3
  | awaitingConfirmation => 4
  | awaitingL2Finality => 5
  | rollingBack => 6

/-- The same phase, or a later one. -/
def OperationPhase.MovesTo (p q : OperationPhase) : Prop := q = p ∨ p.rank < q.rank

namespace OperationPhase

theorem canAdvance_rank {p q : OperationPhase} (h : p.canAdvance q = true) : p.rank < q.rank := by
  cases p <;> cases q <;> first | decide | cases h

theorem movesTo_rollingBack (p : OperationPhase) : p.MovesTo .rollingBack := by
  cases p <;> unfold MovesTo <;> decide

theorem MovesTo.trans {p q r : OperationPhase} (h : p.MovesTo q) (h' : q.MovesTo r) :
    p.MovesTo r := by
  rcases h with rfl | h
  · exact h'
  · rcases h' with rfl | h'
    · exact .inr h
    · exact .inr (h.trans h')

/-- `RollingBack` is final. -/
theorem MovesTo.of_rollingBack {q : OperationPhase} (h : rollingBack.MovesTo q) :
    q = .rollingBack := by
  rcases h with h | h
  · exact h
  · cases q <;> simp only [rank] at h <;> omega

end OperationPhase

/-- The same status, or a status reached from `Pending`. -/
def IntentStatus.MovesTo (p q : IntentStatus) : Prop :=
  q = p ∨ (p = .pending ∧ (q = .committed ∨ q = .failed))

theorem IntentStatus.MovesTo.trans {p q r : IntentStatus} (h : p.MovesTo q) (h' : q.MovesTo r) :
    p.MovesTo r := by
  rcases h with rfl | ⟨rfl, hq⟩
  · exact h'
  · rcases h' with rfl | ⟨rfl, -⟩
    · exact .inr ⟨rfl, hq⟩
    · rcases hq with h | h <;> cases h

namespace Ledger

variable {rules : Rules} {l l' : Ledger}

/-- Any number of moves. -/
abbrev Run (rules : Rules) : Ledger → Ledger → Prop := Relation.ReflTransGen (Move rules)

theorem Run.invariant {I : Ledger → Prop} (hmove : ∀ l l', I l → Move rules l l' → I l')
    (h : Run rules l l') (hl : I l) : I l' := by
  induction h with
  | refl => exact hl
  | tail _ hm ih => exact hmove _ _ ih hm

/-! ## Operations and intents -/

/-- A recorded operation stays on record and its phase only moves forward. -/
theorem Move.operation_forward (h : Move rules l l') {id : OperationId} {op : PersistedOperation}
    (hop : l.operation id = some op) :
    ∃ op', l'.operation id = some op' ∧ op.phase.MovesTo op'.phase := by
  have hsame : l'.operation = l.operation → ∃ op', l'.operation id = some op' ∧
      op.phase.MovesTo op'.phase := fun heq => ⟨op, heq ▸ hop, .inl rfl⟩
  have hset : ∀ {id' op'}, l'.operation = Function.update l.operation id' (some op') →
      (id = id' → op.phase.MovesTo op'.phase) →
        ∃ op', l'.operation id = some op' ∧ op.phase.MovesTo op'.phase := by
    intro id' op' heq hmoves
    by_cases hid : id = id'
    · exact ⟨op', by rw [heq, hid, Function.update_self], hmoves hid⟩
    · exact ⟨op, by rw [heq, Function.update_of_ne hid, hop], .inl rfl⟩
  cases h with
  | quiet _ operation | put _ _ _ operation | record _ _ _ _ operation
    | commit _ _ _ _ _ operation | fail _ _ _ _ _ _ operation | reconcile _ _ _ operation =>
    exact hsame operation
  | failSelected id' i op₀ op' _ _ _ _ _ phase' operation =>
    exact hset operation fun _ => phase' ▸ op.phase.movesTo_rollingBack
  | release id' op' _ phase' operation =>
    exact hset operation fun _ => phase' ▸ op.phase.movesTo_rollingBack
  | hold batch i op' _ admits selected _ phase' operation =>
    refine hset operation fun hid => .inl ?_
    rw [hid] at hop
    rw [phase', (admits.operation op hop).1, selected]
  | advance id' phase op₀ op' i running _ _ forward _ phase' operation =>
    refine hset operation fun hid => .inr ?_
    rw [hid, running] at hop
    cases hop
    rw [phase']
    exact OperationPhase.canAdvance_rank forward

/-- A recorded intent keeps its selection and leaves `Pending` at most once. -/
theorem Move.intent_forward (h : Move rules l l') {id : OperationId} {i : OperationIntent}
    (hi : l.intent id = some i) :
    ∃ i', l'.intent id = some i' ∧ i'.selection = i.selection ∧ i.status.MovesTo i'.status := by
  have hsame : l'.intent = l.intent → ∃ i', l'.intent id = some i' ∧
      i'.selection = i.selection ∧ i.status.MovesTo i'.status :=
    fun heq => ⟨i, heq ▸ hi, rfl, .inl rfl⟩
  have hset : ∀ {id' j}, l'.intent = Function.update l.intent id' (some j) →
      (id = id' → j.selection = i.selection ∧ i.status.MovesTo j.status) →
        ∃ i', l'.intent id = some i' ∧ i'.selection = i.selection ∧
          i.status.MovesTo i'.status := by
    intro id' j heq hmoves
    by_cases hid : id = id'
    · exact ⟨j, by rw [heq, hid, Function.update_self], hmoves hid⟩
    · exact ⟨i, by rw [heq, Function.update_of_ne hid, hi], rfl, .inl rfl⟩
  cases h with
  | quiet _ _ intent | put _ _ _ _ intent | reconcile _ _ _ _ intent
    | release _ _ _ _ _ intent | hold _ _ _ _ _ _ _ _ _ intent
    | advance _ _ _ _ _ _ _ _ _ _ _ _ intent =>
    exact hsame intent
  | record selection tick fresh _ _ intent =>
    refine hset intent fun hid => ?_
    rw [hid, fresh] at hi
    cases hi
  | commit id' j recorded notFailed _ _ intent =>
    refine hset intent fun hid => ?_
    rw [hid, recorded] at hi
    cases hi
    refine ⟨rfl, ?_⟩
    cases hst : i.status with
    | pending => exact .inr ⟨rfl, .inl rfl⟩
    | committed => exact .inl rfl
    | failed => exact (notFailed hst).elim
  | fail id' j recorded pending _ _ _ intent
    | failSelected id' j _ _ recorded pending _ _ _ _ _ intent =>
    refine hset intent fun hid => ?_
    rw [hid, recorded] at hi
    cases hi
    exact ⟨rfl, .inr ⟨pending, .inr rfl⟩⟩

theorem Run.operation_forward (h : Run rules l l') {id : OperationId} {op : PersistedOperation}
    (hop : l.operation id = some op) :
    ∃ op', l'.operation id = some op' ∧ op.phase.MovesTo op'.phase := by
  induction h with
  | refl => exact ⟨op, hop, .inl rfl⟩
  | tail _ hm ih =>
    obtain ⟨op₁, hop₁, h₁⟩ := ih
    obtain ⟨op₂, hop₂, h₂⟩ := hm.operation_forward hop₁
    exact ⟨op₂, hop₂, h₁.trans h₂⟩

theorem Run.intent_forward (h : Run rules l l') {id : OperationId} {i : OperationIntent}
    (hi : l.intent id = some i) :
    ∃ i', l'.intent id = some i' ∧ i'.selection = i.selection ∧ i.status.MovesTo i'.status := by
  induction h with
  | refl => exact ⟨i, hi, rfl, .inl rfl⟩
  | tail _ hm ih =>
    obtain ⟨i₁, hi₁, hsel₁, h₁⟩ := ih
    obtain ⟨i₂, hi₂, hsel₂, h₂⟩ := hm.intent_forward hi₁
    exact ⟨i₂, hi₂, hsel₂.trans hsel₁, h₁.trans h₂⟩

/-- A selection that is on record was recorded before, or the call records it. -/
theorem exec_intent {c : StoreCall} {id : OperationId} {i' : OperationIntent}
    (h : (exec c l).2.intent id = some i') :
    (∃ i, l.intent id = some i ∧ i.selection = i'.selection) ∨ c = .persistIntent i'.selection := by
  have hsame : l.intent id = some i' → ∃ i, l.intent id = some i ∧ i.selection = i'.selection :=
    fun h => ⟨i', h, rfl⟩
  have hstatus : ∀ {id₁ i status}, l.intent id₁ = some i →
      (l.setStatus id₁ i status).intent id = some i' →
        ∃ i, l.intent id = some i ∧ i.selection = i'.selection := by
    intro id₁ i status hi h
    change Function.update l.intent id₁ _ id = _ at h
    rw [Function.update_apply] at h
    split_ifs at h with hid
    · cases h
      exact ⟨i, hid ▸ hi, rfl⟩
    · exact hsame h
  cases c with
  | persistIntent selection =>
    change (l.persistIntent selection).2.intent id = _ at h
    unfold persistIntent at h
    cases hi : l.intent selection.operationId with
    | some existing =>
      rw [hi] at h
      dsimp only at h
      split_ifs at h <;> exact .inl (hsame h)
    | none =>
      rw [hi] at h
      change Function.update l.intent _ _ id = _ at h
      rw [Function.update_apply] at h
      split_ifs at h
      · cases h
        exact .inr rfl
      · exact .inl (hsame h)
  | markIntentCommitted id₁ =>
    change (l.markIntentCommitted id₁).2.intent id = _ at h
    unfold markIntentCommitted at h
    cases hi : l.intent id₁ with
    | none =>
      rw [hi] at h
      exact .inl (hsame h)
    | some i =>
      rw [hi] at h
      dsimp only at h
      split_ifs at h
      · exact .inl (hsame h)
      · exact .inl (hstatus hi h)
  | markIntentFailed id₁ =>
    change (l.markIntentFailed id₁).2.intent id = _ at h
    unfold markIntentFailed at h
    cases hi : l.intent id₁ with
    | none =>
      rw [hi] at h
      exact .inl (hsame h)
    | some i =>
      rw [hi] at h
      dsimp only at h
      split at h
      · exact .inl (hsame h)
      · exact .inl (hsame h)
      · split at h
        · exact .inl (hstatus hi h)
        · split at h
          · exact .inl (hstatus hi h)
          · exact .inl (hstatus hi h)
          · exact .inl (hsame h)
  | putScope scope =>
    change (l.putScope scope).2.intent id = _ at h
    unfold putScope at h
    split at h <;> exact .inl (hsame h)
  | applyBatch batch =>
    change (l.applyBatch batch).2.intent id = _ at h
    unfold applyBatch at h
    split at h <;> exact .inl (hsame h)
  | releaseSelectedOperation id₁ =>
    change (l.releaseSelectedOperation id₁).2.intent id = _ at h
    unfold releaseSelectedOperation at h
    split_ifs at h <;> exact .inl (hsame h)
  | completeOperation id₁ phase =>
    change (l.completeOperation id₁ phase).2.intent id = _ at h
    unfold completeOperation at h
    split at h
    · exact .inl (hsame h)
    · split at h
      · exact .inl (hsame h)
      · split_ifs at h
        · exact .inl (hsame h)
        · split at h <;> exact .inl (hsame h)
  | _ => exact .inl (hsame h)

/-- An operation that left `Selected`, other than by a release, has a committed intent. -/
def AdvancedCommitted (l : Ledger) : Prop :=
  ∀ id op, l.operation id = some op → op.phase ≠ .selected → op.phase ≠ .rollingBack →
    ∃ i, l.intent id = some i ∧ i.status = .committed

theorem AdvancedCommitted.empty : Ledger.empty.AdvancedCommitted := fun _ _ h => (nomatch h)

theorem AdvancedCommitted.move (h : l.AdvancedCommitted) (hmove : Move rules l l') :
    l'.AdvancedCommitted := by
  intro id op' hop' hsel hrb
  -- a committed intent stays committed
  have hkeep : (∃ i, l.intent id = some i ∧ i.status = .committed) →
      ∃ i, l'.intent id = some i ∧ i.status = .committed := by
    rintro ⟨i, hi, hst⟩
    obtain ⟨i', hi', -, hmoves⟩ := hmove.intent_forward hi
    rw [hst] at hmoves
    rcases hmoves with h | ⟨h, -⟩
    · exact ⟨i', hi', h⟩
    · cases h
  have hset : ∀ {id₀ op₀}, l'.operation = Function.update l.operation id₀ (some op₀) →
      (id = id₀ → op' = op₀ → ∃ i, l.intent id = some i ∧ i.status = .committed) →
        ∃ i, l'.intent id = some i ∧ i.status = .committed := by
    intro id₀ op₀ heq hnew
    rw [heq, Function.update_apply] at hop'
    split_ifs at hop' with hid
    · exact hkeep (hnew hid (Option.some.inj hop').symm)
    · exact hkeep (h id op' hop' hsel hrb)
  cases hmove with
  | quiet _ operation | put _ _ _ operation | record _ _ _ _ operation
    | commit _ _ _ _ _ operation | fail _ _ _ _ _ _ operation | reconcile _ _ _ operation =>
    rw [operation] at hop'
    exact hkeep (h id op' hop' hsel hrb)
  | failSelected id₀ i op₀ op₁ _ _ _ _ _ phase' operation
    | release id₀ op₁ _ phase' operation =>
    refine hset operation fun _ heq => ?_
    rw [heq] at hrb
    exact (hrb phase').elim
  | hold batch i op₁ _ _ _ _ phase' operation =>
    refine hset operation fun _ heq => ?_
    rw [heq] at hsel
    exact (hsel phase').elim
  | advance id₀ phase op₀ op₁ i _ recorded committed _ _ _ operation =>
    exact hset operation fun hid _ => ⟨i, hid ▸ recorded, committed⟩

end Ledger

/-! ## Owners -/

/-- `id` has the lock or the binding of the cell. -/
def Cell.Owner (c : Cell) (id : OperationId) : Prop :=
  (∃ k, c.lock = some k ∧ k.operationId = id) ∨ ∃ b, c.binding = some b ∧ b.operationId = id

namespace Cell

variable {c : Cell} {id id' : OperationId}

theorem not_owner_empty : ¬ Cell.empty.Owner id := by
  rintro (⟨k, hk, -⟩ | ⟨b, hb, -⟩)
  · cases hk
  · cases hb

theorem Owner.of_release (h : (c.release id).Owner id') : c.Owner id' ∧ id' ≠ id := by
  rcases h with ⟨k, hk, rfl⟩ | ⟨b, hb, rfl⟩
  · obtain ⟨hk, hne⟩ := Option.filter_eq_some_iff.mp hk
    exact ⟨.inl ⟨k, hk, rfl⟩, by simpa using hne⟩
  · rw [binding_release, Option.filter_eq_some_iff] at hb
    exact ⟨.inr ⟨b, hb.1, rfl⟩, by simpa using hb.2⟩

theorem Owner.of_advance {phase : OperationPhase} (h : (c.advance id phase).Owner id') :
    c.Owner id' := by
  rcases h with ⟨k, hk, rfl⟩ | ⟨b, hb, rfl⟩
  · obtain ⟨k', hk', rfl⟩ := Option.map_eq_some_iff.mp hk
    refine .inl ⟨k', hk', ?_⟩
    split_ifs <;> rfl
  · rw [binding_advance] at hb
    obtain ⟨b', hb', rfl⟩ := Option.map_eq_some_iff.mp hb
    refine .inr ⟨b', hb', ?_⟩
    split_ifs <;> rfl

theorem lock_act (c : Cell) (a : ReconciliationAction) :
    (c.act a).lock = c.lock ∨ (c.act a).lock = none := by
  cases a with
  | discoverNew =>
    unfold act
    split_ifs <;> exact .inl rfl
  | markSpent => exact .inr rfl
  | refreshObserved | updateOnchainState | reportConflict | clearConflict | updateAvailability
    | markMissing => exact .inl rfl

theorem Owner.of_act {a : ReconciliationAction} (h : (c.act a).Owner id') : c.Owner id' := by
  rcases h with ⟨k, hk, rfl⟩ | ⟨b, hb, rfl⟩
  · rcases c.lock_act a with heq | heq
    · exact .inl ⟨k, heq ▸ hk, rfl⟩
    · rw [heq] at hk
      cases hk
  · rcases c.binding_act a with heq | heq
    · exact .inr ⟨b, heq ▸ hb, rfl⟩
    · rw [heq] at hb
      cases hb

theorem Owner.of_foldl_act {as : List ReconciliationAction} (h : (as.foldl act c).Owner id') :
    c.Owner id' := by
  induction as generalizing c with
  | nil => exact h
  | cons a as ih => exact (ih h).of_act

theorem Owner.of_hold {batch : StateBatch} {purpose : LockPurpose} {tick : ℕ}
    (hc : c.Holdable batch purpose) (h : (c.hold batch tick purpose).Owner id') :
    id' = batch.selection.operationId := by
  cases hc with
  | free u utxo spendable lock =>
    rw [hold_of_free utxo spendable] at h
    rcases h with ⟨k, hk, rfl⟩ | ⟨b, hb, rfl⟩
    · cases hk
      rfl
    · cases hb
      rfl
  | held u k utxo binding lock owner =>
    rw [hold_of_held utxo binding lock owner] at h
    rcases h with ⟨k', hk', rfl⟩ | ⟨b, hb, rfl⟩
    · rw [lock] at hk'
      cases hk'
      exact owner
    · rw [binding_eq_some_iff.mpr ⟨u, utxo, binding⟩] at hb
      cases hb
      rfl

theorem Owner.of_put {u : ManagedUtxo} (hu : u.operationBinding = none)
    (h : ({ c with utxo := some u } : Cell).Owner id') : c.Owner id' := by
  rcases h with ⟨k, hk, rfl⟩ | ⟨b, hb, rfl⟩
  · exact .inl ⟨k, hk, rfl⟩
  · obtain ⟨v, hv, hvb⟩ := binding_eq_some_iff.mp hb
    cases hv
    rw [hu] at hvb
    cases hvb

end Cell

namespace Ledger

variable {rules : Rules} {l l' : Ledger}

/-- The operation is on record, not rolling back, and its intent has not failed. -/
structure Live (l : Ledger) (id : OperationId) : Prop where
  operation : ∃ op, l.operation id = some op ∧ op.phase ≠ .rollingBack
  intent : ∃ i, l.intent id = some i ∧ i.status ≠ .failed

/-- Whoever owns something is live. -/
def OwnersLive (l : Ledger) : Prop := ∀ o id, (l.cell o).Owner id → l.Live id

theorem OwnersLive.empty : Ledger.empty.OwnersLive := fun _ _ h => (Cell.not_owner_empty h).elim

theorem Live.congr {id : OperationId} (h : l.Live id)
    (hop : l'.operation id = l.operation id) (hi : l'.intent id = l.intent id) : l'.Live id :=
  ⟨hop ▸ h.operation, hi ▸ h.intent⟩

/-- Every move that lets in no bound output keeps owners live. -/
theorem OwnersLive.move (hputs : ∀ l u, rules.puts l u → u.operationBinding = none)
    (h : l.OwnersLive) (hmove : Move rules l l') : l'.OwnersLive := by
  intro o id hown
  cases hmove with
  | quiet cell operation intent =>
    rw [cell] at hown
    exact (h o id hown).congr (by rw [operation]) (by rw [intent])
  | put u puts cell operation intent =>
    have hbefore : (l.cell o).Owner id := by
      rw [cell, Function.update_apply] at hown
      split_ifs at hown with ho
      · rw [ho]
        exact hown.of_put (hputs l u puts)
      · exact hown
    exact (h o id hbefore).congr (by rw [operation]) (by rw [intent])
  | record selection tick fresh cell operation intent =>
    rw [cell] at hown
    have hlive := h o id hown
    refine hlive.congr (by rw [operation]) ?_
    rw [intent, Function.update_of_ne]
    rintro rfl
    obtain ⟨i, hi, -⟩ := hlive.intent
    rw [fresh] at hi
    cases hi
  | commit id' i recorded notFailed cell operation intent =>
    rw [cell] at hown
    have hlive := h o id hown
    refine ⟨operation ▸ hlive.operation, ?_⟩
    rw [intent, Function.update_apply]
    split_ifs
    · exact ⟨_, rfl, fun hf => (nomatch hf)⟩
    · exact hlive.intent
  | fail id' i recorded pending idle cell operation intent =>
    rw [cell] at hown
    have hlive := h o id hown
    refine hlive.congr (by rw [operation]) ?_
    rw [intent, Function.update_of_ne]
    rintro rfl
    obtain ⟨op, hop, hne⟩ := hlive.operation
    exact hne (idle op hop)
  | failSelected id' i op op' recorded pending selected phase cell phase' operation intent =>
    rw [cell] at hown
    obtain ⟨hbefore, hne⟩ := Cell.Owner.of_release hown
    refine (h o id hbefore).congr ?_ ?_
    · rw [operation, Function.update_of_ne hne]
    · rw [intent, Function.update_of_ne hne]
  | hold batch i op' recorded admits selected cell phase' operation intent =>
    by_cases hid : id = batch.selection.operationId
    · refine ⟨⟨op', by rw [operation, hid, Function.update_self], by rw [phase']; decide⟩, i, ?_,
        (admits.intent i recorded).1⟩
      rw [intent, hid, recorded]
    · rw [cell] at hown
      rcases l.holdCells_cases batch o with ⟨e, he, rfl, heq⟩ | ⟨-, heq⟩
      · rw [heq] at hown
        exact (hid (hown.of_hold (admits.holdable e he))).elim
      · rw [heq] at hown
        refine (h o id hown).congr ?_ (by rw [intent])
        rw [operation, Function.update_of_ne hid]
  | reconcile plan plans cell operation intent =>
    rw [cell] at hown
    exact (h o id hown.of_foldl_act).congr (by rw [operation]) (by rw [intent])
  | release id' op' cell phase' operation intent =>
    rw [cell] at hown
    obtain ⟨hbefore, hne⟩ := Cell.Owner.of_release hown
    refine (h o id hbefore).congr ?_ (by rw [intent])
    rw [operation, Function.update_of_ne hne]
  | advance id' phase op op' i running recorded committed forward cell phase' operation intent =>
    rw [cell] at hown
    have hlive := h o id hown.of_advance
    refine ⟨?_, intent ▸ hlive.intent⟩
    rw [operation, Function.update_apply]
    split_ifs
    · exact ⟨op', rfl, phase' ▸ (OperationPhase.canAdvance_ne_rollingBack forward).2.1⟩
    · exact hlive.operation

/-! ## Outputs on their way to the chain -/

/-- The output is being spent or was spent, and nobody but `id` owns it. -/
def SpendingBy (id : OperationId) (c : Cell) : Prop :=
  (∃ u, c.utxo = some u ∧ u.onchainState.isSpending = true) ∧ ∀ id', c.Owner id' → id' = id

end Ledger

namespace ManagedUtxo

theorem releaseIfBound_onchainState (u : ManagedUtxo) (id : OperationId) :
    (u.releaseIfBound id).onchainState = u.onchainState := by
  unfold releaseIfBound
  split_ifs <;> rfl

/-- An advance makes no output spent and leaves a spent one spent. -/
theorem advanceIfBound_spent_iff (u : ManagedUtxo) (id : OperationId) (phase : OperationPhase) :
    (u.advanceIfBound id phase).onchainState = .spent ↔ u.onchainState = .spent := by
  unfold advanceIfBound advanceBinding
  by_cases hb : u.boundTo id = true
  · rw [if_pos hb]
    cases u.operationBinding with
    | none => exact Iff.rfl
    | some b =>
      simp only
      split_ifs with _ hs
      · exact ⟨fun h => (nomatch h), fun h => (hs h).elim⟩
      · exact Iff.rfl
      · exact Iff.rfl
  · rw [if_neg hb]

theorem isSpending_advanceIfBound {u : ManagedUtxo} (h : u.onchainState.isSpending = true)
    (id : OperationId) (phase : OperationPhase) :
    (u.advanceIfBound id phase).onchainState.isSpending = true := by
  unfold advanceIfBound
  by_cases hb : u.boundTo id = true
  · rw [if_pos hb]
    unfold advanceBinding
    cases u.operationBinding with
    | none => exact h
    | some b =>
      simp only
      split_ifs
      · rfl
      · exact h
      · exact h
  · rw [if_neg hb]
    exact h

/-- An output bound to an operation that is broadcast is on its way to the chain. -/
theorem isSpending_advanceIfBound_of_bound {u : ManagedUtxo} {id : OperationId}
    {phase : OperationPhase} (hb : u.boundTo id = true) (hp : phase.startsSpending = true) :
    (u.advanceIfBound id phase).onchainState.isSpending = true := by
  obtain ⟨b, hub, -⟩ := boundTo_iff.mp hb
  unfold advanceIfBound advanceBinding
  rw [if_pos hb, hub]
  simp only [hp, if_true]
  split_ifs with hs
  · rfl
  · rw [not_not.mp hs]
    rfl

end ManagedUtxo

namespace Cell

/-- No action takes a spending output back. -/
theorem isSpending_act {c : Cell} (h : ∃ u, c.utxo = some u ∧ u.onchainState.isSpending = true)
    (a : ReconciliationAction) :
    ∃ u, (c.act a).utxo = some u ∧ u.onchainState.isSpending = true := by
  obtain ⟨u, hu, hs⟩ := h
  unfold act
  rw [hu]
  cases a with
  | discoverNew | refreshObserved => exact ⟨u, by simpa using hu, hs⟩
  | updateOnchainState _ newState =>
    refine ⟨u, ?_, hs⟩
    simp only [hs, Option.map_some, Bool.not_true, Bool.false_eq_true, if_false]
  | markSpent => exact ⟨_, rfl, rfl⟩
  | reportConflict | clearConflict | updateAvailability | markMissing => exact ⟨_, rfl, hs⟩

theorem isSpending_foldl_act {c : Cell}
    (h : ∃ u, c.utxo = some u ∧ u.onchainState.isSpending = true)
    (as : List ReconciliationAction) :
    ∃ u, (as.foldl act c).utxo = some u ∧ u.onchainState.isSpending = true := by
  induction as generalizing c with
  | nil => exact h
  | cons a as ih => exact ih (isSpending_act h a)

end Cell

namespace Ledger

variable {rules : Rules} {l l' : Ledger}

/-- A spending output stays with its owner through every move, if nothing is put in its place. -/
theorem SpendingBy.move (hputs : ∀ l u, rules.puts l u → l.utxo u.outpoint = none)
    {id : OperationId} {o : OutPoint} (h : SpendingBy id (l.cell o)) (hmove : Move rules l l') :
    SpendingBy id (l'.cell o) := by
  obtain ⟨⟨u, hu, hs⟩, hown⟩ := h
  have hrelease : ∀ id', SpendingBy id ((l.cell o).release id') := fun id' =>
    ⟨⟨_, congrArg (Option.map _) hu, by rw [u.releaseIfBound_onchainState, hs]⟩,
      fun id'' h => hown id'' h.of_release.1⟩
  cases hmove with
  | quiet cell | record _ _ _ cell | commit _ _ _ _ cell | fail _ _ _ _ _ cell =>
    rw [cell]
    exact ⟨⟨u, hu, hs⟩, hown⟩
  | put v puts cell =>
    rw [cell, Function.update_of_ne]
    · exact ⟨⟨u, hu, hs⟩, hown⟩
    · rintro rfl
      have hnone := hputs l v puts
      unfold utxo at hnone
      rw [hu] at hnone
      cases hnone
  | failSelected id' _ _ _ _ _ _ _ cell | release id' _ cell =>
    rw [cell]
    exact hrelease id'
  | hold batch i op' recorded admits selected cell =>
    rw [cell]
    rcases l.holdCells_cases batch o with ⟨e, he, rfl, heq⟩ | ⟨-, heq⟩
    · rw [heq]
      cases admits.holdable e he with
      | free v utxo spendable =>
        rw [hu] at utxo
        cases utxo
        rw [(ManagedUtxo.isPolicySpendable_iff.mp spendable).2.1] at hs
        cases hs
      | held v k utxo binding lock owner =>
        rw [Cell.hold_of_held utxo binding lock owner]
        exact ⟨⟨u, hu, hs⟩, hown⟩
    · rw [heq]
      exact ⟨⟨u, hu, hs⟩, hown⟩
  | reconcile plan _ cell =>
    rw [cell]
    exact ⟨Cell.isSpending_foldl_act ⟨u, hu, hs⟩ _, fun id' h => hown id' h.of_foldl_act⟩
  | advance id' phase _ _ _ _ _ _ _ cell =>
    rw [cell]
    exact ⟨⟨_, congrArg (Option.map _) hu, u.isSpending_advanceIfBound hs id' phase⟩,
      fun id'' h => hown id'' h.of_advance⟩

/-! ### Spent outputs -/

/-- The output was spent. -/
def Spent (c : Cell) : Prop := ∃ u, c.utxo = some u ∧ u.onchainState = .spent

theorem Spent.isSpending {c : Cell} (h : Spent c) :
    ∃ u, c.utxo = some u ∧ u.onchainState.isSpending = true := by
  obtain ⟨u, hu, hs⟩ := h
  exact ⟨u, hu, by rw [hs]; rfl⟩

theorem Spent.release {c : Cell} (h : Spent c) (id : OperationId) : Spent (c.release id) := by
  obtain ⟨u, hu, hs⟩ := h
  exact ⟨_, congrArg (Option.map _) hu, (u.releaseIfBound_onchainState id).trans hs⟩

theorem Spent.advance {c : Cell} (h : Spent c) (id : OperationId) (phase : OperationPhase) :
    Spent (c.advance id phase) := by
  obtain ⟨u, hu, hs⟩ := h
  exact ⟨_, congrArg (Option.map _) hu, (u.advanceIfBound_spent_iff id phase).mpr hs⟩

theorem Spent.act {c : Cell} (h : Spent c) (a : ReconciliationAction) : Spent (c.act a) := by
  obtain ⟨u, hu, hs⟩ := h
  unfold Cell.act
  rw [hu]
  cases a with
  | discoverNew | refreshObserved => exact ⟨u, by simpa using hu, hs⟩
  | updateOnchainState _ newState =>
    refine ⟨u, ?_, hs⟩
    simp only [hs, OnchainState.isSpending, Option.map_some, Bool.not_true, Bool.false_eq_true,
      if_false]
  | markSpent => exact ⟨_, rfl, rfl⟩
  | reportConflict | clearConflict | updateAvailability | markMissing => exact ⟨_, rfl, hs⟩

theorem Spent.foldl_act {c : Cell} (h : Spent c) (as : List ReconciliationAction) :
    Spent (as.foldl Cell.act c) := by
  induction as generalizing c with
  | nil => exact h
  | cons a as ih => exact ih (h.act a)

/-- A spent output stays spent. -/
theorem Spent.move (hputs : ∀ l u, rules.puts l u → l.utxo u.outpoint = none) {o : OutPoint}
    (h : Spent (l.cell o)) (hmove : Move rules l l') : Spent (l'.cell o) := by
  cases hmove with
  | quiet cell | record _ _ _ cell | commit _ _ _ _ cell | fail _ _ _ _ _ cell =>
    rw [cell]
    exact h
  | put v puts cell =>
    rw [cell, Function.update_of_ne]
    · exact h
    · rintro rfl
      obtain ⟨u, hu, -⟩ := h
      have hnone := hputs l v puts
      unfold utxo at hnone
      rw [hu] at hnone
      cases hnone
  | failSelected id _ _ _ _ _ _ _ cell | release id _ cell =>
    rw [cell]
    exact h.release id
  | hold batch i op' recorded admits selected cell =>
    rw [cell]
    rcases l.holdCells_cases batch o with ⟨e, he, rfl, heq⟩ | ⟨-, heq⟩
    · rw [heq]
      cases admits.holdable e he with
      | free v utxo spendable =>
        obtain ⟨u, hu, hs⟩ := h
        rw [hu] at utxo
        cases utxo
        rw [(ManagedUtxo.isPolicySpendable_iff.mp spendable).2.1] at hs
        cases hs
      | held v k utxo binding lock owner =>
        rw [Cell.hold_of_held utxo binding lock owner]
        exact h
    · rw [heq]
      exact h
  | reconcile plan _ cell =>
    rw [cell]
    exact h.foldl_act _
  | advance id phase _ _ _ _ _ _ _ cell =>
    rw [cell]
    exact h.advance id phase

/-- A spent output nobody owns. -/
def Retired (c : Cell) : Prop := Spent c ∧ ∀ id, ¬ c.Owner id

/-- A retired output stays retired. -/
theorem Retired.move (hputs : ∀ l u, rules.puts l u → l.utxo u.outpoint = none) {o : OutPoint}
    (h : Retired (l.cell o)) (hmove : Move rules l l') : Retired (l'.cell o) := by
  have hby : ∀ id, SpendingBy id (l.cell o) := fun id =>
    ⟨h.1.isSpending, fun id' hown => (h.2 id' hown).elim⟩
  refine ⟨h.1.move hputs hmove, fun id hown => ?_⟩
  -- an owner would be any operation at once
  have h₁ := ((hby ⟨""⟩).move hputs hmove).2 id hown
  have h₂ := ((hby ⟨"other"⟩).move hputs hmove).2 id hown
  rw [h₁] at h₂
  exact absurd (congrArg OperationId.value h₂) (by decide)

theorem Retired.foldl_act {c : Cell} (h : Retired c) (as : List ReconciliationAction) :
    Retired (as.foldl Cell.act c) :=
  ⟨h.1.foldl_act as, fun id hown => h.2 id hown.of_foldl_act⟩

/-- Nothing is left of an owner once an output is marked spent. -/
theorem retired_markSpent {c : Cell} {u : ManagedUtxo} (hu : c.utxo = some u) (o : OutPoint)
    (txid : String) : Retired (c.act (.markSpent o txid)) := by
  refine ⟨⟨u.markSpent, congrArg (Option.map _) hu, rfl⟩, ?_⟩
  rintro id (⟨k, hk, -⟩ | ⟨b, hb, -⟩)
  · cases hk
  · obtain ⟨v, hv, hvb⟩ := Cell.binding_eq_some_iff.mp hb
    obtain ⟨v', -, rfl⟩ := Option.map_eq_some_iff.mp hv
    cases hvb

/-- No spent output is bound. -/
def SpentUnbound (l : Ledger) : Prop :=
  ∀ o u, l.utxo o = some u → u.onchainState = .spent → u.operationBinding = none

theorem SpentUnbound.empty : Ledger.empty.SpentUnbound := fun _ _ h => (nomatch h)

/-- A plan in which `UpdateOnchainState` never claims a spend. -/
def plansWithoutSpent (plan : ReconcilePlan) : Prop :=
  ∀ o, ReconciliationAction.updateOnchainState o .spent ∉ plan.actions

theorem spentUnbound_act {c : Cell} {a : ReconciliationAction}
    (h : ∀ u, c.utxo = some u → u.onchainState = .spent → u.operationBinding = none)
    (ha : ∀ o, a ≠ .updateOnchainState o .spent) :
    ∀ u, (c.act a).utxo = some u → u.onchainState = .spent → u.operationBinding = none := by
  intro u hu hs
  cases a with
  | discoverNew observed =>
    unfold Cell.act at hu
    split_ifs at hu
    · exact h u hu hs
    · cases hu
      rfl
  | refreshObserved => exact h u hu hs
  | markSpent =>
    obtain ⟨v, -, rfl⟩ := Option.map_eq_some_iff.mp hu
    rfl
  | updateOnchainState o newState =>
    obtain ⟨v, hv, rfl⟩ := Option.map_eq_some_iff.mp hu
    split_ifs at hs ⊢ with hspending
    · cases hs
      exact (ha o rfl).elim
    · exact h v hv hs
  | reportConflict | clearConflict | updateAvailability | markMissing =>
    obtain ⟨v, hv, rfl⟩ := Option.map_eq_some_iff.mp hu
    exact h v hv hs

theorem spentUnbound_foldl_act {as : List ReconciliationAction} {c : Cell}
    (h : ∀ u, c.utxo = some u → u.onchainState = .spent → u.operationBinding = none)
    (has : ∀ a ∈ as, ∀ o, a ≠ .updateOnchainState o .spent) :
    ∀ u, (as.foldl Cell.act c).utxo = some u → u.onchainState = .spent →
      u.operationBinding = none := by
  induction as generalizing c with
  | nil => exact h
  | cons a as ih =>
    exact ih (spentUnbound_act h (has a List.mem_cons_self))
      fun a' ha' => has a' (List.mem_cons_of_mem _ ha')

theorem SpentUnbound.move
    (hputs : ∀ l u, rules.puts l u → u.operationBinding = none)
    (hplans : ∀ l plan, rules.plans l plan → plansWithoutSpent plan)
    (h : l.SpentUnbound) (hmove : Move rules l l') : l'.SpentUnbound := by
  intro o u hu hs
  unfold utxo at hu
  have hcell : ∀ v, (l.cell o).utxo = some v → v.onchainState = .spent →
      v.operationBinding = none := h o
  have hrelease : ∀ id, ((l.cell o).release id).utxo = some u → u.operationBinding = none := by
    intro id hu
    obtain ⟨v, hv, rfl⟩ := Option.map_eq_some_iff.mp hu
    rw [ManagedUtxo.releaseIfBound_onchainState] at hs
    rw [ManagedUtxo.releaseIfBound_operationBinding, hcell v hv hs, Option.filter_none]
  cases hmove with
  | quiet cell | record _ _ _ cell | commit _ _ _ _ cell | fail _ _ _ _ _ cell =>
    rw [cell] at hu
    exact hcell u hu hs
  | put v puts cell =>
    rw [cell, Function.update_apply] at hu
    split_ifs at hu
    · cases hu
      exact hputs l _ puts
    · exact hcell u hu hs
  | failSelected id _ _ _ _ _ _ _ cell | release id _ cell =>
    rw [cell] at hu
    exact hrelease id hu
  | hold batch i op' recorded admits selected cell =>
    rw [cell] at hu
    rcases l.holdCells_cases batch o with ⟨e, he, rfl, heq⟩ | ⟨-, heq⟩
    · rw [heq] at hu
      cases admits.holdable e he with
      | free v utxo spendable =>
        rw [Cell.hold_of_free utxo spendable] at hu
        cases hu
        have hconf := (ManagedUtxo.isPolicySpendable_iff.mp spendable).2.1
        rw [show (v.reserve batch.selection.operationId batch.phase).onchainState =
          v.onchainState from rfl, hconf] at hs
        cases hs
      | held v k utxo binding lock owner =>
        rw [Cell.hold_of_held utxo binding lock owner] at hu
        exact hcell u hu hs
    · rw [heq] at hu
      exact hcell u hu hs
  | reconcile plan plans cell =>
    rw [cell] at hu
    refine spentUnbound_foldl_act hcell (fun a ha o' heq => ?_) u hu hs
    rw [heq] at ha
    exact hplans l plan plans o' (List.mem_filter.mp ha).1
  | advance id phase _ _ _ _ _ _ _ cell =>
    rw [cell] at hu
    obtain ⟨v, hv, rfl⟩ := Option.map_eq_some_iff.mp hu
    rw [ManagedUtxo.advanceIfBound_operationBinding, Option.map_eq_none_iff]
    exact hcell v hv ((v.advanceIfBound_spent_iff id phase).mp hs)

end Ledger

end Txoscope
