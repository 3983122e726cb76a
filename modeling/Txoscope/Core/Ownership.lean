import Txoscope.Core.Moves

/-!
# Who owns an outpoint

In every ledger a run can reach, an outpoint is locked exactly when it is bound, the lock and the
binding name the same operation, and that operation is on record in the phase of the binding, with
an intent that lists the outpoint and has not failed. `Cell.Agrees` is the part of this that one
cell shows; `Backs` is what the other records say about a binding. Every move keeps both, whatever
plans are reconciled.
-/

namespace Txoscope

/-! ## One cell -/

namespace Cell

/-- The lock and the binding of a cell are there together and name the same owner. -/
structure Agrees (c : Cell) : Prop where
  locked : ∀ k, c.lock = some k → ∃ u b, c.utxo = some u ∧ u.operationBinding = some b ∧
    k.operationId = b.operationId ∧ k.accountId = u.accountId ∧ k.scopeId = u.scopeId
  bound : ∀ u b, c.utxo = some u → u.operationBinding = some b → ∃ k, c.lock = some k

theorem binding_eq_some_iff {c : Cell} {b : OperationBinding} :
    c.binding = some b ↔ ∃ u, c.utxo = some u ∧ u.operationBinding = some b := by
  unfold binding
  rw [Option.bind_eq_some_iff]

theorem binding_release (id : OperationId) (c : Cell) :
    (c.release id).binding = c.binding.filter fun b => b.operationId ≠ id := by
  unfold binding release
  cases c.utxo with
  | none => rfl
  | some u => exact u.releaseIfBound_operationBinding id

theorem binding_advance (id : OperationId) (phase : OperationPhase) (c : Cell) :
    (c.advance id phase).binding =
      c.binding.map fun b => if b.operationId = id then { b with phase } else b := by
  unfold binding advance
  cases c.utxo with
  | none => rfl
  | some u => exact u.advanceIfBound_operationBinding id phase

/-- An action keeps the binding or removes it. -/
theorem binding_act (c : Cell) (a : ReconciliationAction) :
    (c.act a).binding = c.binding ∨ (c.act a).binding = none := by
  unfold binding act
  cases hu : c.utxo with
  | none => cases a <;> simp [hu, ManagedUtxo.discoverFromObserved]
  | some u =>
    cases a with
    | discoverNew | refreshObserved => simp [hu]
    | markSpent => exact .inr rfl
    | updateOnchainState _ newState =>
      refine .inl ?_
      simp only [Option.map_some, Option.bind_some]
      split_ifs <;> rfl
    | reportConflict | clearConflict | updateAvailability | markMissing => exact .inl rfl

theorem binding_foldl_act (as : List ReconciliationAction) (c : Cell) :
    (as.foldl act c).binding = c.binding ∨ (as.foldl act c).binding = none := by
  induction as generalizing c with
  | nil => exact .inl rfl
  | cons a as ih =>
    rw [List.foldl_cons]
    rcases ih (c.act a) with h | h
    · rw [h]
      exact c.binding_act a
    · exact .inr h

namespace Agrees

variable {c : Cell}

theorem empty : Cell.empty.Agrees := ⟨fun _ h => (nomatch h), fun _ _ h => (nomatch h)⟩

/-- An output without a binding has no lock. -/
theorem unlocked (h : c.Agrees) (hb : c.binding = none) : c.lock = none := by
  cases hk : c.lock with
  | none => rfl
  | some k =>
    obtain ⟨u, b, hu, hub, -⟩ := h.locked k hk
    rw [binding_eq_some_iff.mpr ⟨u, hu, hub⟩] at hb
    cases hb

/-- Without a binding and a lock there is nothing to disagree. -/
theorem of_none (hb : c.binding = none) (hk : c.lock = none) : c.Agrees where
  locked k h := by
    rw [hk] at h
    cases h
  bound u b hu hub := by
    rw [binding_eq_some_iff.mpr ⟨u, hu, hub⟩] at hb
    cases hb

/-- The operation of the lock is that of the binding. -/
theorem owner_eq (h : c.Agrees) {u : ManagedUtxo} {b : OperationBinding} {k : OperationLock}
    (hu : c.utxo = some u) (hb : u.operationBinding = some b) (hk : c.lock = some k) :
    k.operationId = b.operationId := by
  obtain ⟨u', b', hu', hb', howner, -⟩ := h.locked k hk
  rw [hu] at hu'
  cases hu'
  rw [hb] at hb'
  cases hb'
  exact howner

theorem release (h : c.Agrees) (id : OperationId) : (c.release id).Agrees where
  locked k hk := by
    obtain ⟨hk, hne⟩ := Option.filter_eq_some_iff.mp hk
    obtain ⟨u, b, hu, hb, howner, haccount, hscope⟩ := h.locked k hk
    refine ⟨u.releaseIfBound id, b, ?_, ?_, howner, ?_, ?_⟩
    · exact congrArg (Option.map _) hu
    · rw [ManagedUtxo.releaseIfBound_operationBinding, hb, Option.filter_some, if_pos]
      rw [← howner]
      exact hne
    · rw [ManagedUtxo.releaseIfBound_accountId, haccount]
    · rw [ManagedUtxo.releaseIfBound_scopeId, hscope]
  bound u b hu hb := by
    obtain ⟨v, hv, rfl⟩ := Option.map_eq_some_iff.mp hu
    rw [ManagedUtxo.releaseIfBound_operationBinding, Option.filter_eq_some_iff] at hb
    obtain ⟨k, hk⟩ := h.bound v b hv hb.1
    refine ⟨k, Option.filter_eq_some_iff.mpr ⟨hk, ?_⟩⟩
    rw [h.owner_eq hv hb.1 hk]
    exact hb.2

theorem advance (h : c.Agrees) (id : OperationId) (phase : OperationPhase) :
    (c.advance id phase).Agrees where
  locked k hk := by
    obtain ⟨k', hk', rfl⟩ := Option.map_eq_some_iff.mp hk
    obtain ⟨u, b, hu, hb, howner, haccount, hscope⟩ := h.locked k' hk'
    refine ⟨u.advanceIfBound id phase, if b.operationId = id then { b with phase } else b,
      congrArg (Option.map _) hu, ?_, ?_, ?_, ?_⟩
    · rw [ManagedUtxo.advanceIfBound_operationBinding, hb, Option.map_some]
    · split_ifs <;> exact howner
    · rw [ManagedUtxo.advanceIfBound_accountId]
      split_ifs <;> exact haccount
    · rw [ManagedUtxo.advanceIfBound_scopeId]
      split_ifs <;> exact hscope
  bound u b hu hb := by
    obtain ⟨v, hv, rfl⟩ := Option.map_eq_some_iff.mp hu
    rw [ManagedUtxo.advanceIfBound_operationBinding] at hb
    obtain ⟨b', hb', -⟩ := Option.map_eq_some_iff.mp hb
    obtain ⟨k, hk⟩ := h.bound v b' hv hb'
    exact ⟨_, congrArg (Option.map _) hk⟩

/-- A rewrite of the output that keeps its owner. -/
theorem map_utxo (h : c.Agrees) {f : ManagedUtxo → ManagedUtxo}
    (hb : ∀ u, (f u).operationBinding = u.operationBinding)
    (ha : ∀ u, (f u).accountId = u.accountId) (hs : ∀ u, (f u).scopeId = u.scopeId) :
    Agrees { c with utxo := c.utxo.map f } where
  locked k hk := by
    obtain ⟨u, b, hu, hub, howner, haccount, hscope⟩ := h.locked k hk
    refine ⟨f u, b, congrArg (Option.map f) hu, ?_, howner, ?_, ?_⟩
    · rw [hb, hub]
    · rw [ha, haccount]
    · rw [hs, hscope]
  bound u b hu hub := by
    obtain ⟨v, hv, rfl⟩ := Option.map_eq_some_iff.mp hu
    rw [hb] at hub
    exact h.bound v b hv hub

theorem act (h : c.Agrees) (a : ReconciliationAction) : (c.act a).Agrees := by
  cases a with
  | discoverNew observed =>
    unfold Cell.act
    split_ifs with hmanaged
    · exact h
    · refine of_none rfl (h.unlocked ?_)
      rw [Bool.not_eq_true, Option.isSome_eq_false_iff, Option.isNone_iff_eq_none] at hmanaged
      unfold binding
      rw [hmanaged]
      rfl
  | refreshObserved observed => exact h
  | markSpent =>
    refine of_none ?_ rfl
    unfold binding Cell.act
    cases c.utxo <;> rfl
  | updateOnchainState _ newState =>
    refine h.map_utxo (fun u => ?_) (fun u => ?_) fun u => ?_ <;> split_ifs <;> rfl
  | reportConflict | clearConflict | updateAvailability | markMissing =>
    exact h.map_utxo (fun _ => rfl) (fun _ => rfl) fun _ => rfl

theorem foldl_act (h : c.Agrees) (as : List ReconciliationAction) :
    (as.foldl Cell.act c).Agrees := by
  induction as generalizing c with
  | nil => exact h
  | cons a as ih => exact ih (h.act a)

theorem hold (h : c.Agrees) {batch : StateBatch} {purpose : LockPurpose} (tick : ℕ)
    (hc : c.Holdable batch purpose) : (c.hold batch tick purpose).Agrees := by
  cases hc with
  | free u utxo spendable lock =>
    rw [hold_of_free utxo spendable]
    constructor
    · intro k hk
      cases hk
      exact ⟨_, _, rfl, rfl, rfl, rfl, rfl⟩
    · intro v b _ _
      exact ⟨_, rfl⟩
  | held u k utxo binding lock owner =>
    rw [hold_of_held utxo binding lock owner]
    exact h

end Agrees

theorem binding_hold {c : Cell} {batch : StateBatch} {purpose : LockPurpose} (tick : ℕ)
    (hc : c.Holdable batch purpose) :
    (c.hold batch tick purpose).binding =
      some ⟨batch.selection.operationId, batch.phase⟩ := by
  cases hc with
  | free u utxo spendable lock =>
    rw [hold_of_free utxo spendable]
    rfl
  | held u k utxo binding lock owner =>
    rw [hold_of_held utxo binding lock owner]
    exact binding_eq_some_iff.mpr ⟨u, utxo, binding⟩

end Cell

/-! ## The other records -/

namespace Ledger

/-- The operation is on record in the phase of the binding, and its intent lists the outpoint. -/
structure Backs (l : Ledger) (o : OutPoint) (b : OperationBinding) : Prop where
  operation : ∃ op, l.operation b.operationId = some op ∧ op.phase = b.phase
  notRollingBack : b.phase ≠ .rollingBack
  intent : ∃ i, l.intent b.operationId = some i ∧ i.status ≠ .failed ∧
    o ∈ i.selection.selectedOutpoints

/-- Every outpoint is free, or owned by an operation that every record agrees on. -/
structure Owned (l : Ledger) : Prop where
  agrees : ∀ o, (l.cell o).Agrees
  backs : ∀ o b, (l.cell o).binding = some b → l.Backs o b

theorem Owned.empty : Ledger.empty.Owned :=
  ⟨fun _ => .empty, fun _ _ h => (nomatch h)⟩

variable {rules : Rules} {l l' : Ledger}

/-- A binding is backed by the records of its own operation only. -/
theorem Backs.congr {o : OutPoint} {b : OperationBinding} (h : l.Backs o b)
    (hop : l'.operation b.operationId = l.operation b.operationId)
    (hi : l'.intent b.operationId = l.intent b.operationId) : l'.Backs o b :=
  ⟨hop ▸ h.operation, h.notRollingBack, hi ▸ h.intent⟩

/-- Backing survives a new status of an intent that is not `Failed`. -/
theorem Backs.update_intent {o : OutPoint} {b : OperationBinding} (h : l.Backs o b)
    {id : OperationId} {i i' : OperationIntent} (hi : l.intent id = some i)
    (hsel : i'.selection = i.selection) (hst : i'.status ≠ .failed)
    (hop : l'.operation = l.operation) (hint : l'.intent = Function.update l.intent id (some i')) :
    l'.Backs o b := by
  refine ⟨hop ▸ h.operation, h.notRollingBack, ?_⟩
  obtain ⟨j, hj, hjst, hmem⟩ := h.intent
  rw [hint, Function.update_apply]
  split_ifs with hid
  · rw [hid, hi] at hj
    cases hj
    exact ⟨i', rfl, hst, hsel ▸ hmem⟩
  · exact ⟨j, hj, hjst, hmem⟩

/-- A release leaves no binding of the operation and does not touch the others. -/
theorem Backs.release {id : OperationId} {o : OutPoint} {b : OperationBinding} {c : Cell}
    (hbacks : ∀ b, c.binding = some b → l.Backs o b) (hb : (c.release id).binding = some b)
    (hop : ∀ id', id' ≠ id → l'.operation id' = l.operation id')
    (hint : ∀ id', id' ≠ id → l'.intent id' = l.intent id') : l'.Backs o b := by
  rw [Cell.binding_release, Option.filter_eq_some_iff, decide_eq_true_eq] at hb
  exact (hbacks b hb.1).congr (hop _ hb.2) (hint _ hb.2)

/-- Every move keeps the agreement of lock and binding. -/
theorem Owned.move (hnew : ∀ l u, rules.puts l u → l.utxo u.outpoint = none ∧
      u.operationBinding = none) (h : l.Owned) (hmove : Move rules l l') : l'.Owned := by
  cases hmove with
  | quiet cell operation intent =>
    refine ⟨cell ▸ h.agrees, fun o b hb => ?_⟩
    rw [cell] at hb
    exact (h.backs o b hb).congr (by rw [operation]) (by rw [intent])
  | put u puts cell operation intent =>
    obtain ⟨hfree, hunbound⟩ := hnew l u puts
    have hnone : (l.cell u.outpoint).binding = none := congrArg (Option.bind · _) hfree
    constructor
    · intro o
      rw [cell, Function.update_apply]
      split_ifs
      · exact Cell.Agrees.of_none hunbound ((h.agrees u.outpoint).unlocked hnone)
      · exact h.agrees o
    · intro o b hb
      rw [cell, Function.update_apply] at hb
      split_ifs at hb
      · rw [Cell.binding_eq_some_iff] at hb
        obtain ⟨v, hv, hvb⟩ := hb
        cases hv
        rw [hunbound] at hvb
        cases hvb
      · exact (h.backs o b hb).congr (by rw [operation]) (by rw [intent])
  | record selection tick fresh cell operation intent =>
    refine ⟨cell ▸ h.agrees, fun o b hb => ?_⟩
    rw [cell] at hb
    have hbacks := h.backs o b hb
    have hne : b.operationId ≠ selection.operationId := by
      intro heq
      obtain ⟨i, hi, -⟩ := hbacks.intent
      rw [heq, fresh] at hi
      cases hi
    refine hbacks.congr (by rw [operation]) ?_
    rw [intent, Function.update_of_ne hne]
  | commit id i recorded notFailed cell operation intent =>
    refine ⟨cell ▸ h.agrees, fun o b hb => ?_⟩
    rw [cell] at hb
    refine (h.backs o b hb).update_intent recorded ?_ ?_ operation intent
    · rfl
    · exact fun hf => (nomatch hf)
  | fail id i recorded pending idle cell operation intent =>
    refine ⟨cell ▸ h.agrees, fun o b hb => ?_⟩
    rw [cell] at hb
    have hbacks := h.backs o b hb
    -- an operation that is rolling back, or not on record, owns nothing
    have hne : b.operationId ≠ id := by
      rintro rfl
      obtain ⟨op, hop, hphase⟩ := hbacks.operation
      exact hbacks.notRollingBack (hphase ▸ idle op hop)
    refine hbacks.congr (by rw [operation]) ?_
    rw [intent, Function.update_of_ne hne]
  | failSelected id i op op' recorded pending selected phase cell phase' operation intent =>
    refine ⟨fun o => by rw [cell]; exact (h.agrees o).release id, fun o b hb => ?_⟩
    rw [cell] at hb
    refine Backs.release (h.backs o) hb (fun id' hne => ?_) fun id' hne => ?_
    · rw [operation, Function.update_of_ne hne]
    · rw [intent, Function.update_of_ne hne]
  | hold batch i op' recorded admits selected cell phase' operation intent =>
    have hphase : ∀ o b, b.operationId = batch.selection.operationId → b.phase = .selected →
        o ∈ batch.selection.selectedOutpoints → l'.Backs o b := by
      intro o b hid hbp hmem
      obtain ⟨hst, hsel⟩ := admits.intent i recorded
      refine ⟨⟨op', ?_, phase'.trans hbp.symm⟩, by rw [hbp]; decide, i, ?_, hst, hsel ▸ hmem⟩
      · rw [operation, hid, Function.update_self]
      · rw [intent, hid, recorded]
    constructor
    · intro o
      rw [cell]
      rcases l.holdCells_cases batch o with ⟨e, he, rfl, heq⟩ | ⟨-, heq⟩
      · rw [heq]
        exact (h.agrees _).hold _ (admits.holdable e he)
      · rw [heq]
        exact h.agrees o
    · intro o b hb
      rw [cell] at hb
      rcases l.holdCells_cases batch o with ⟨e, he, rfl, heq⟩ | ⟨-, heq⟩
      · rw [heq, Cell.binding_hold _ (admits.holdable e he)] at hb
        cases hb
        exact hphase _ _ rfl selected
          ((admits.authorised.wellFormed.mem_iff _).mpr (List.mem_map.mpr ⟨e, he, rfl⟩))
      · rw [heq] at hb
        have hbacks := h.backs o b hb
        by_cases hid : b.operationId = batch.selection.operationId
        · obtain ⟨op, hop, hopb⟩ := hbacks.operation
          obtain ⟨j, hj, -, hmem⟩ := hbacks.intent
          rw [hid] at hop hj
          refine hphase o b hid ?_ ?_
          · rw [← hopb, (admits.operation op hop).1, selected]
          · rw [← (admits.intent j hj).2]
            exact hmem
        · refine hbacks.congr ?_ (by rw [intent])
          rw [operation, Function.update_of_ne hid]
  | reconcile plan plans cell operation intent =>
    refine ⟨fun o => by rw [cell]; exact (h.agrees o).foldl_act _, fun o b hb => ?_⟩
    rw [cell] at hb
    rcases (l.cell o).binding_foldl_act (plan.actionsOn o) with heq | heq
    · rw [heq] at hb
      exact (h.backs o b hb).congr (by rw [operation]) (by rw [intent])
    · rw [heq] at hb
      cases hb
  | release id op' cell phase' operation intent =>
    refine ⟨fun o => by rw [cell]; exact (h.agrees o).release id, fun o b hb => ?_⟩
    rw [cell] at hb
    refine Backs.release (h.backs o) hb (fun id' hne => ?_) fun id' _ => by rw [intent]
    rw [operation, Function.update_of_ne hne]
  | advance id phase op op' i running recorded committed forward cell phase' operation intent =>
    refine ⟨fun o => by rw [cell]; exact (h.agrees o).advance id phase, fun o b hb => ?_⟩
    rw [cell, Cell.binding_advance] at hb
    obtain ⟨b', hb', rfl⟩ := Option.map_eq_some_iff.mp hb
    have hbacks := h.backs o b' hb'
    split_ifs with hid
    · refine ⟨⟨op', ?_, phase'⟩, (OperationPhase.canAdvance_ne_rollingBack forward).2.1, ?_⟩
      · rw [operation, hid, Function.update_self]
      · rw [intent]
        exact hbacks.intent
    · refine hbacks.congr ?_ (by rw [intent])
      rw [operation, Function.update_of_ne hid]

end Ledger

end Txoscope
