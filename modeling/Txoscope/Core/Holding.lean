import Txoscope.Core.Lifecycle

/-!
# What an operation holds

An operation holds an outpoint when the output is bound to it and it has the lock. An operation
still in `Selected` holds every input of its recorded selection, except for those that were seen
spent (`Reserved`); and every lock was taken for an effect of a recorded selection (`Justified`).
Both are kept by every move, whatever plans are reconciled.
-/

namespace Txoscope

namespace Cell

/-- The output is bound to `id` in `phase` and locked by `id`. -/
structure HeldBy (c : Cell) (id : OperationId) (phase : OperationPhase) : Prop where
  binding : c.binding = some ⟨id, phase⟩
  lock : ∃ k, c.lock = some k ∧ k.operationId = id

variable {c : Cell} {id id' : OperationId} {phase phase' : OperationPhase}

theorem heldBy_iff {u : ManagedUtxo} (hu : c.utxo = some u) :
    c.HeldBy id phase ↔ alreadyApplied id phase u c.lock = true := by
  have hbinding : c.binding = u.operationBinding := by
    unfold binding
    rw [hu]
    rfl
  rw [alreadyApplied_iff]
  exact ⟨fun h => ⟨hbinding ▸ h.binding, h.lock⟩, fun h => ⟨hbinding ▸ h.1, h.2⟩⟩

namespace HeldBy

theorem release (h : c.HeldBy id phase) (hne : id ≠ id') : (c.release id').HeldBy id phase := by
  obtain ⟨k, hk, howner⟩ := h.lock
  refine ⟨?_, k, Option.filter_eq_some_iff.mpr ⟨hk, ?_⟩, howner⟩
  · rw [binding_release, h.binding, Option.filter_some, if_pos (by simpa using hne)]
  · simpa [howner] using hne

theorem advance (h : c.HeldBy id phase) (hne : id ≠ id') :
    (c.advance id' phase').HeldBy id phase := by
  obtain ⟨k, hk, howner⟩ := h.lock
  refine ⟨?_, _, congrArg (Option.map _) hk, ?_⟩
  · rw [binding_advance, h.binding, Option.map_some, if_neg hne]
  · dsimp only
    rw [if_neg (howner ▸ hne), howner]

/-- A held output is left as it is by any batch that is accepted. -/
theorem hold_eq (h : c.HeldBy id phase) {batch : StateBatch} {purpose : LockPurpose} {tick : ℕ}
    (hc : c.Holdable batch purpose) : c.hold batch tick purpose = c := by
  cases hc with
  | free u utxo spendable lock =>
    obtain ⟨k, hk, -⟩ := h.lock
    rw [lock] at hk
    cases hk
  | held u k utxo binding lock owner => exact hold_of_held utxo binding lock owner

end HeldBy

/-- The output is bound to `id`, in whatever phase, and locked by `id`. -/
def Held (c : Cell) (id : OperationId) : Prop := ∃ phase, c.HeldBy id phase

theorem Held.release (h : c.Held id) (hne : id ≠ id') : (c.release id').Held id := by
  obtain ⟨phase, h⟩ := h
  exact ⟨phase, h.release hne⟩

/-- A release makes nobody a holder. -/
theorem Held.of_release (h : (c.release id').Held id) : c.Held id := by
  obtain ⟨phase, hbinding, k, hk, howner⟩ := h
  rw [binding_release, Option.filter_eq_some_iff] at hbinding
  exact ⟨phase, hbinding.1, k, (Option.filter_eq_some_iff.mp hk).1, howner⟩

/-- What an accepted batch does not leave alone, it holds. -/
theorem heldBy_hold {batch : StateBatch} {purpose : LockPurpose} (tick : ℕ)
    (hc : c.Holdable batch purpose) :
    (c.hold batch tick purpose).HeldBy batch.selection.operationId batch.phase := by
  refine ⟨binding_hold tick hc, ?_⟩
  cases hc with
  | free u utxo spendable lock =>
    rw [hold_of_free utxo spendable]
    exact ⟨_, rfl, rfl⟩
  | held u k utxo binding lock owner =>
    rw [hold_of_held utxo binding lock owner]
    exact ⟨k, lock, owner⟩

/-- An action leaves a holder alone, or reports the output spent and frees it. -/
theorem HeldBy.act (h : c.HeldBy id phase) (a : ReconciliationAction) :
    (c.act a).HeldBy id phase ∨ Ledger.Retired (c.act a) := by
  obtain ⟨u, hu, hub⟩ := binding_eq_some_iff.mp h.binding
  have hkeep : ∀ f : ManagedUtxo → ManagedUtxo, (f u).operationBinding = u.operationBinding →
      HeldBy { c with utxo := c.utxo.map f } id phase := fun f hf =>
    ⟨binding_eq_some_iff.mpr ⟨f u, congrArg (Option.map f) hu, hf ▸ hub⟩, h.lock⟩
  cases a with
  | discoverNew observed =>
    refine .inl ?_
    rw [show c.act (.discoverNew observed) = c from if_pos (by rw [hu]; rfl)]
    exact h
  | refreshObserved observed => exact .inl h
  | markSpent outpoint txid => exact .inr (Ledger.retired_markSpent hu outpoint txid)
  | updateOnchainState outpoint newState =>
    refine .inl (hkeep _ ?_)
    split_ifs <;> rfl
  | reportConflict | clearConflict | updateAvailability | markMissing => exact .inl (hkeep _ rfl)

theorem HeldBy.foldl_act (h : c.HeldBy id phase) (as : List ReconciliationAction) :
    (as.foldl Cell.act c).HeldBy id phase ∨ Ledger.Retired (as.foldl Cell.act c) := by
  induction as generalizing c with
  | nil => exact .inl h
  | cons a as ih =>
    rcases h.act a with h | h
    · exact ih h
    · exact .inr (h.foldl_act as)

end Cell

namespace Ledger

variable {rules : Rules} {l l' : Ledger}

/-! ## Reserved inputs -/

/-- The operation is on record with a well-formed selection each input of which it holds, unless
the input is spent. -/
structure Reserves (l : Ledger) (id : OperationId) : Prop where
  intent : ∃ i, l.intent id = some i ∧ i.selection.WellFormed ∧
    ∀ o ∈ i.selection.selectedOutpoints, (l.cell o).HeldBy id .selected ∨ Retired (l.cell o)

/-- Every operation still in `Selected` reserves its inputs. -/
def Reserved (l : Ledger) : Prop :=
  ∀ id op, l.operation id = some op → op.phase = .selected → l.Reserves id

theorem Reserved.empty : Ledger.empty.Reserved := fun _ _ h => (nomatch h)

/-- A move that leaves the operation alone leaves what it holds, or finds it spent. -/
theorem Reserves.move (hputs : ∀ l u, rules.puts l u → l.utxo u.outpoint = none)
    {id : OperationId} (h : l.Reserves id) (hmove : Move rules l l')
    (hheld : ∀ o, (l.cell o).HeldBy id .selected →
      (l'.cell o).HeldBy id .selected ∨ Retired (l'.cell o)) : l'.Reserves id := by
  obtain ⟨i, hi, hw, hall⟩ := h.intent
  obtain ⟨i', hi', hsel, -⟩ := hmove.intent_forward hi
  refine ⟨i', hi', hsel ▸ hw, fun o ho => ?_⟩
  rw [hsel] at ho
  rcases hall o ho with h | h
  · exact hheld o h
  · exact .inr (h.move hputs hmove)

/-- While an operation stays in `Selected`, a move leaves what it holds or finds it spent. -/
theorem heldBy_move (hputs : ∀ l u, rules.puts l u → l.utxo u.outpoint = none)
    (hmove : Move rules l l') {id : OperationId} {op' : PersistedOperation}
    (hop' : l'.operation id = some op') (hphase' : op'.phase = .selected) {o : OutPoint}
    (h : (l.cell o).HeldBy id .selected) :
    (l'.cell o).HeldBy id .selected ∨ Retired (l'.cell o) := by
  have hne : ∀ {id' : OperationId} {op₁ : PersistedOperation}, op₁.phase ≠ .selected →
      l'.operation = Function.update l.operation id' (some op₁) → id ≠ id' := by
    rintro id' op₁ hnot heq rfl
    rw [heq, Function.update_self] at hop'
    cases hop'
    exact hnot hphase'
  cases hmove with
  | quiet cell | record _ _ _ cell | commit _ _ _ _ cell | fail _ _ _ _ _ cell =>
    exact .inl (cell ▸ h)
  | put u puts cell =>
    refine .inl ?_
    rw [cell, Function.update_of_ne]
    · exact h
    · rintro rfl
      obtain ⟨v, hv, -⟩ := Cell.binding_eq_some_iff.mp h.binding
      have hnone : (l.cell u.outpoint).utxo = none := hputs l u puts
      rw [hnone] at hv
      cases hv
  | failSelected id' _ _ op₁ _ _ _ _ cell phase' operation
  | release id' op₁ cell phase' operation =>
    rw [cell]
    exact .inl (h.release (hne (by rw [phase']; decide) operation))
  | hold batch _ _ _ admits _ cell =>
    refine .inl ?_
    rw [cell]
    rcases l.holdCells_cases batch o with ⟨e, he, rfl, heq⟩ | ⟨-, heq⟩
    · rw [heq, h.hold_eq (admits.holdable e he)]
      exact h
    · rw [heq]
      exact h
  | reconcile plan _ cell =>
    rw [cell]
    exact h.foldl_act _
  | advance id' phase _ op₁ _ _ _ _ forward cell phase' operation =>
    rw [cell]
    refine .inl (h.advance (hne ?_ operation))
    rw [phase']
    exact (OperationPhase.canAdvance_ne_rollingBack forward).2.2

theorem Reserved.move (hputs : ∀ l u, rules.puts l u → l.utxo u.outpoint = none)
    (h : l.Reserved) (hmove : Move rules l l') : l'.Reserved := by
  intro id op' hop' hphase'
  -- an operation that was in `Selected` before
  have hold : ∀ op, l.operation id = some op → op.phase = .selected → l'.Reserves id :=
    fun op hop hphase => (h id op hop hphase).move hputs hmove fun o =>
      heldBy_move hputs hmove hop' hphase'
  have hsame : l'.operation = l.operation → l'.Reserves id :=
    fun heq => hold op' (heq ▸ hop') hphase'
  have hother : ∀ {id' : OperationId} {op₁ : PersistedOperation}, op₁.phase ≠ .selected →
      l'.operation = Function.update l.operation id' (some op₁) → l'.Reserves id := by
    intro id' op₁ hnot heq
    rw [heq, Function.update_apply] at hop'
    split_ifs at hop' with hid
    · cases hop'
      exact (hnot hphase').elim
    · exact hold op' hop' hphase'
  cases hmove with
  | quiet _ operation | put _ _ _ operation | record _ _ _ _ operation
  | commit _ _ _ _ _ operation | fail _ _ _ _ _ _ operation | reconcile _ _ _ operation =>
    exact hsame operation
  | failSelected _ _ _ _ _ _ _ _ _ phase operation | release _ _ _ phase operation =>
    exact hother (by rw [phase]; decide) operation
  | advance _ _ _ _ _ _ _ _ forward _ phase operation =>
    exact hother (by rw [phase]; exact (OperationPhase.canAdvance_ne_rollingBack forward).2.2)
      operation
  | hold batch i op₁ recorded admits selected cell phase operation intent =>
    by_cases hid : id = batch.selection.operationId
    · have hw := admits.authorised.wellFormed
      have hsel := (admits.intent i recorded).2
      refine ⟨i, by rw [intent, hid, recorded], hsel ▸ hw, fun o ho => .inl ?_⟩
      rw [hsel, hw.mem_iff] at ho
      rw [cell, hid]
      rcases l.holdCells_cases batch o with ⟨e, he, rfl, heq⟩ | ⟨hnone, -⟩
      · rw [heq]
        have hheld := Cell.heldBy_hold l.tick (admits.holdable e he)
        rw [selected] at hheld
        exact hheld
      · obtain ⟨e, he, rfl⟩ := List.mem_map.mp ho
        exact (hnone e he rfl).elim
    · rw [operation, Function.update_of_ne hid] at hop'
      exact hold op' hop' hphase'

/-! ## Justified locks -/

/-- A lock after a move was there before, for the same operation and purpose, or it was taken for
an effect of the recorded selection of its operation. Its expiry changes only when the operation
leaves `Selected`. -/
theorem Move.lock_cases (hmove : Move rules l l') {o : OutPoint} {k : OperationLock}
    (hk : l'.lock o = some k) :
    (∃ k₀, l.lock o = some k₀ ∧ k₀.operationId = k.operationId ∧ k₀.purpose = k.purpose ∧
      (k₀.expiresAt = k.expiresAt ∨
        ∃ op, l'.operation k.operationId = some op ∧ op.phase ≠ .selected)) ∨
    ∃ i, l'.intent k.operationId = some i ∧ ⟨o, k.purpose⟩ ∈ i.selection.effects ∧
      i.selection.expiresAt = k.expiresAt := by
  have hkept : (l.cell o).lock = some k → ∃ k₀, l.lock o = some k₀ ∧
      k₀.operationId = k.operationId ∧ k₀.purpose = k.purpose ∧ (k₀.expiresAt = k.expiresAt ∨
        ∃ op, l'.operation k.operationId = some op ∧ op.phase ≠ .selected) :=
    fun hk₀ => ⟨k, hk₀, rfl, rfl, .inl rfl⟩
  unfold lock at hk
  cases hmove with
  | quiet cell | record _ _ _ cell | commit _ _ _ _ cell | fail _ _ _ _ _ cell =>
    exact .inl (hkept (cell ▸ hk))
  | put u puts cell =>
    refine .inl (hkept ?_)
    rw [cell, Function.update_apply] at hk
    split_ifs at hk with ho
    · rw [ho]
      exact hk
    · exact hk
  | failSelected _ _ _ _ _ _ _ _ cell | release _ _ cell =>
    rw [cell] at hk
    exact .inl (hkept (Option.filter_eq_some_iff.mp hk).1)
  | reconcile plan _ cell =>
    rw [cell] at hk
    have hlock : ∀ (as : List ReconciliationAction) (c : Cell),
        (as.foldl Cell.act c).lock = some k → c.lock = some k := by
      intro as
      induction as with
      | nil => exact fun _ h => h
      | cons a as ih =>
        intro c hc
        rcases c.lock_act a with heq | heq
        · exact heq ▸ ih _ hc
        · have := ih _ hc
          rw [heq] at this
          cases this
    exact .inl (hkept (hlock _ _ hk))
  | advance id phase _ op' _ _ _ _ forward cell phase' operation =>
    rw [cell] at hk
    obtain ⟨k₀, hk₀, hdated⟩ := Option.map_eq_some_iff.mp hk
    split_ifs at hdated with hid
    · subst hdated
      refine .inl ⟨k₀, hk₀, rfl, rfl, .inr ⟨op', ?_, ?_⟩⟩
      · rw [operation]
        exact hid ▸ Function.update_self _ _ _
      · rw [phase']
        rintro rfl
        exact Nat.not_lt_zero _ (OperationPhase.canAdvance_rank forward)
    · exact .inl (hkept (hdated ▸ hk₀))
  | hold batch i _ recorded admits _ cell _ _ intent =>
    rw [cell] at hk
    rcases l.holdCells_cases batch o with ⟨e, he, rfl, heq⟩ | ⟨-, heq⟩
    · rw [heq] at hk
      cases admits.holdable e he with
      | free u utxo spendable lock =>
        rw [Cell.hold_of_free utxo spendable] at hk
        cases hk
        have hsel := (admits.intent i recorded).2
        exact .inr ⟨i, intent ▸ recorded, hsel ▸ he, hsel ▸ rfl⟩
      | held u k' utxo binding lock owner =>
        rw [Cell.hold_of_held utxo binding lock owner] at hk
        exact .inl (hkept hk)
    · rw [heq] at hk
      exact .inl (hkept hk)

/-- Every lock was taken for an effect of the recorded selection of its operation. -/
def Justified (l : Ledger) : Prop :=
  ∀ o k, l.lock o = some k → ∃ i, l.intent k.operationId = some i ∧
    ⟨o, k.purpose⟩ ∈ i.selection.effects

theorem Justified.empty : Ledger.empty.Justified := fun _ _ h => (nomatch h)

theorem Justified.move (h : l.Justified) (hmove : Move rules l l') : l'.Justified := by
  intro o k hk
  rcases hmove.lock_cases hk with ⟨k₀, hk₀, hid, hpurpose, -⟩ | ⟨i, hi, hmem, -⟩
  · obtain ⟨i, hi, hmem⟩ := h o k₀ hk₀
    obtain ⟨i', hi', hsel, -⟩ := hmove.intent_forward hi
    exact ⟨i', hid ▸ hi', hsel ▸ hpurpose ▸ hmem⟩
  · exact ⟨i, hi, hmem⟩

/-! ## Dated locks -/

/-- Every lock expires with the recorded selection of its operation, as long as the operation is
in `Selected`. -/
def Dated (l : Ledger) : Prop :=
  ∀ o k, l.lock o = some k →
    (∃ i, l.intent k.operationId = some i ∧ i.selection.expiresAt = k.expiresAt) ∨
      ∃ op, l.operation k.operationId = some op ∧ op.phase ≠ .selected

theorem Dated.empty : Ledger.empty.Dated := fun _ _ h => (nomatch h)

theorem Dated.move (h : l.Dated) (hmove : Move rules l l') : l'.Dated := by
  intro o k hk
  rcases hmove.lock_cases hk with ⟨k₀, hk₀, hid, -, hexpiry⟩ | ⟨i, hi, -, hexpiry⟩
  · rcases hexpiry with hexpiry | hleft
    · rw [← hid, ← hexpiry]
      rcases h o k₀ hk₀ with ⟨i, hi, hdated⟩ | ⟨op, hop, hphase⟩
      · obtain ⟨i', hi', hsel, -⟩ := hmove.intent_forward hi
        exact .inl ⟨i', hi', hsel ▸ hdated⟩
      · obtain ⟨op', hop', hforward⟩ := hmove.operation_forward hop
        refine .inr ⟨op', hop', fun hselected => ?_⟩
        rw [hselected] at hforward
        rcases hforward with heq | hlt
        · exact hphase heq.symm
        · exact Nat.not_lt_zero _ hlt
    · exact .inr hleft
  · exact .inl ⟨i, hi, hexpiry⟩

end Ledger

end Txoscope
