import Txoscope.Service.Leases

/-!
# Stale reservations

`cleanup_stale_reservations` picks its operations before it releases the first of them. The releases
keep out of each other's way: an output undergoes the release of its own operation only
(`cell_releasing`), so every operation is still selected when its turn comes. What the call releases
is what it picked, whatever order the operations were listed in (`cleanup_exact`).
-/

namespace Txoscope

/-! ## Several releases of a cell -/

namespace Cell

/-- The output is freed if one of the operations holds it, and so is its lock. -/
def releaseAll (ids : List OperationId) (c : Cell) : Cell where
  utxo := c.utxo.map fun u =>
    if u.operationBinding.any (·.operationId ∈ ids) then u.releaseBinding else u
  lock := c.lock.filter (·.operationId ∉ ids)

theorem releaseAll_nil (c : Cell) : c.releaseAll [] = c := by
  unfold releaseAll
  cases c with
  | mk utxo lock => cases utxo <;> cases lock <;> simp

/-- Once an output is freed no other release is about it. -/
theorem releaseAll_release (id : OperationId) (ids : List OperationId) (c : Cell) :
    (c.release id).releaseAll ids = c.releaseAll (id :: ids) := by
  refine Cell.ext ?_ ?_
  · change (c.utxo.map (·.releaseIfBound id)).map _ = c.utxo.map _
    rw [Option.map_map]
    refine Option.map_congr fun u _ => ?_
    dsimp only [Function.comp_apply]
    cases hb : u.operationBinding with
    | none => simp [ManagedUtxo.releaseIfBound, ManagedUtxo.not_boundTo_of_none hb, hb]
    | some b =>
      by_cases hid : b.operationId = id
      · have hbound : u.boundTo id = true := ManagedUtxo.boundTo_iff.mpr ⟨b, hb, hid⟩
        simp [ManagedUtxo.releaseIfBound, hbound, ManagedUtxo.releaseBinding, hid]
      · have hfree : u.boundTo id = false := ManagedUtxo.not_boundTo_of_binding hb hid
        simp [ManagedUtxo.releaseIfBound, hfree, hb, hid]
  · change (c.lock.filter (·.operationId ≠ id)).filter _ = c.lock.filter _
    rw [Option.filter_filter]
    refine congrArg (Option.filter · c.lock) (funext fun lock => ?_)
    simp [List.mem_cons, not_or]

/-- An output has one owner. -/
theorem BoundTo.unique {c : Cell} {id id' : OperationId} (h : c.BoundTo id) (h' : c.BoundTo id') :
    id = id' := by
  obtain ⟨u, hu, hbound⟩ := h
  obtain ⟨u', hu', hbound'⟩ := h'
  obtain rfl : u = u' := Option.some.inj (hu.symm.trans hu')
  obtain ⟨b, hb, rfl⟩ := ManagedUtxo.boundTo_iff.mp hbound
  obtain ⟨b', hb', rfl⟩ := ManagedUtxo.boundTo_iff.mp hbound'
  rw [Option.some.inj (hb.symm.trans hb')]

theorem boundTo_release_iff {c : Cell} {id id' : OperationId} :
    (c.release id).BoundTo id' ↔ c.BoundTo id' ∧ id' ≠ id := by
  unfold BoundTo release
  simp only [Option.map_eq_some_iff, ManagedUtxo.boundTo_iff]
  constructor
  · rintro ⟨v, ⟨u, hu, rfl⟩, b, hb, rfl⟩
    rw [ManagedUtxo.releaseIfBound_operationBinding, Option.filter_eq_some_iff] at hb
    exact ⟨⟨u, hu, b, hb.1, rfl⟩, by simpa using hb.2⟩
  · rintro ⟨⟨u, hu, b, hb, rfl⟩, hne⟩
    refine ⟨_, ⟨u, hu, rfl⟩, b, ?_, rfl⟩
    rw [ManagedUtxo.releaseIfBound_operationBinding, hb, Option.filter_some,
      if_pos (decide_eq_true hne)]

/-- An output that none of the operations holds is left as it is. -/
theorem releaseAll_utxo_of_not_bound {c : Cell} {ids : List OperationId}
    (h : ∀ id ∈ ids, ¬ c.BoundTo id) : (c.releaseAll ids).utxo = c.utxo := by
  change c.utxo.map _ = _
  cases hu : c.utxo with
  | none => rfl
  | some u =>
    refine congrArg some (if_neg fun hany => ?_)
    obtain ⟨b, hb, hmem⟩ := (Option.any_eq_true _ _).mp hany
    exact h _ (of_decide_eq_true hmem) ⟨u, hu, ManagedUtxo.boundTo_of_binding hb⟩

/-- What becomes of an output that one of the operations holds. -/
theorem releaseAll_utxo_of_bound {c : Cell} {ids : List OperationId} {id : OperationId}
    (hid : id ∈ ids) {u : ManagedUtxo} (hu : c.utxo = some u) (h : u.boundTo id = true) :
    (c.releaseAll ids).utxo = some u.releaseBinding := by
  obtain ⟨b, hb, rfl⟩ := ManagedUtxo.boundTo_iff.mp h
  change c.utxo.map _ = _
  rw [hu, Option.map_some, hb, Option.any_some, if_pos (decide_eq_true hid)]

theorem releaseAll_lock_of_not_mem {c : Cell} {ids : List OperationId}
    (h : ∀ k, c.lock = some k → k.operationId ∉ ids) : (c.releaseAll ids).lock = c.lock := by
  change c.lock.filter _ = _
  cases hk : c.lock with
  | none => rfl
  | some k => exact Option.filter_some_pos (decide_eq_true (h k hk))

/-- Where lock and binding agree, an output that none of the operations holds keeps its lock. -/
theorem Agrees.releaseAll_of_not_bound {c : Cell} (h : c.Agrees) {ids : List OperationId}
    (hnone : ∀ id ∈ ids, ¬ c.BoundTo id) : c.releaseAll ids = c := by
  refine Cell.ext (releaseAll_utxo_of_not_bound hnone) ?_
  refine releaseAll_lock_of_not_mem fun k hk hid => ?_
  obtain ⟨u, b, hu, hb, howner, -⟩ := h.locked k hk
  exact hnone _ hid ⟨u, hu, ManagedUtxo.boundTo_iff.mpr ⟨b, hb, howner.symm⟩⟩

end Cell

theorem ManagedUtxo.releasedAvailability_selectable_iff {u : ManagedUtxo} :
    u.releasedAvailability = .selectable ↔ u.onchainState = .confirmed ∧
      u.observationConflict = none ∧ u.availability ≠ .recovering := by
  unfold ManagedUtxo.releasedAvailability
  cases hst : u.onchainState <;> cases hav : u.availability <;>
    simp [OnchainState.isSpending]

/-! ## Several releases of a store -/

namespace InMemoryStateStore

variable {rules : Ledger.Rules} {s : InMemoryStateStore} {maxAge : ℕ} {ids : List OperationId}

theorem cell_releasing (s : InMemoryStateStore) (ids : List OperationId) (o : OutPoint) :
    (s.releasing ids).cell o = (s.cell o).releaseAll ids := by
  induction ids generalizing s with
  | nil => exact (Cell.releaseAll_nil _).symm
  | cons id ids ih =>
    refine (ih _).trans ?_
    rw [cell_releaseOperation, Cell.releaseAll_release]

/-- The outpoints that the releases return. -/
def unbinding : List OperationId → InMemoryStateStore → List OutPoint
  | [], _ => []
  | id :: ids, s => (s.releaseOperation id .rollingBack).1 ++
      unbinding ids (s.releaseOperation id .rollingBack).2

theorem enumerates_unbinding (hk : s.WellKeyed) (hnd : ids.Nodup) :
    Enumerates (unbinding ids s) {o | ∃ id ∈ ids, (s.cell o).BoundTo id} := by
  induction ids generalizing s with
  | nil => exact ⟨List.nodup_nil, fun o => by simp [unbinding]⟩
  | cons id ids ih =>
    obtain ⟨hnew, hrest⟩ := List.nodup_cons.mp hnd
    obtain ⟨hnodup, hmem⟩ := enumerates_boundOutpoints hk id
    have hkeyed : (s.releaseOperation id .rollingBack).2.WellKeyed :=
      hk.exec (.releaseOperation id .rollingBack)
    obtain ⟨hnodup', hmem'⟩ := ih hkeyed hrest
    -- a release of one operation leaves the outputs of the others bound
    have hlater : ∀ o, o ∈ unbinding ids (s.releaseOperation id .rollingBack).2 ↔
        ∃ id' ∈ ids, (s.cell o).BoundTo id' := by
      intro o
      refine (hmem' o).trans (exists_congr fun id' => and_congr_right fun hid' => ?_)
      rw [cell_releaseOperation, Cell.boundTo_release_iff]
      exact and_iff_left fun heq => hnew (heq ▸ hid')
    refine ⟨List.nodup_append.mpr ⟨hnodup, hnodup', fun o ho o' ho' heq => ?_⟩, fun o => ?_⟩
    · subst heq
      obtain ⟨id', hid', hbound'⟩ := (hlater o).mp ho'
      obtain rfl : id = id' := Cell.BoundTo.unique ((hmem o).mp ho) hbound'
      exact hnew hid'
    · change o ∈ _ ++ _ ↔ ∃ id' ∈ id :: ids, _
      rw [List.mem_append, hlater]
      simp only [List.mem_cons, exists_eq_or_imp]
      exact or_congr_left (hmem o)

/-- A released operation has been rolled back. -/
theorem getOperation_releasing_of_mem {id : OperationId} (h : id ∈ ids) :
    ∃ op, (s.releasing ids).getOperation id = some op ∧ op.phase = .rollingBack := by
  induction ids generalizing s with
  | nil => exact (List.not_mem_nil h).elim
  | cons released ids ih =>
    by_cases hid : id ∈ ids
    · exact ih hid
    · obtain rfl : id = released := (List.mem_cons.mp h).resolve_right hid
      have hrecord : (s.releaseOperation id .rollingBack).2.getOperation id =
          some ⟨id, .rollingBack, saturatingAdd s.tick 1, none⟩ := by
        rw [getOperation_releaseOperation, Function.update_self]
      exact ⟨_, (getOperation_releasing hid).trans hrecord, rfl⟩

/-- The releases leave nothing to the operations they are about. -/
theorem unwound_releasing {id : OperationId} (h : id ∈ ids) : (s.releasing ids).Unwound id where
  operation := getOperation_releasing_of_mem h
  utxo o u hu := by
    have hcell : ((s.cell o).releaseAll ids).utxo = some u :=
      (congrArg Cell.utxo (cell_releasing s ids o)).symm.trans hu
    rw [← Bool.not_eq_true]
    intro hbound
    by_cases hany : ∃ id' ∈ ids, (s.cell o).BoundTo id'
    · obtain ⟨id', hid', v, hv, hv'⟩ := hany
      rw [Cell.releaseAll_utxo_of_bound hid' hv hv', Option.some.injEq] at hcell
      obtain ⟨b, hb, -⟩ := ManagedUtxo.boundTo_iff.mp hbound
      rw [← hcell] at hb
      cases hb
    · simp only [not_exists, not_and] at hany
      rw [Cell.releaseAll_utxo_of_not_bound hany] at hcell
      exact hany id h ⟨u, hcell, hbound⟩
  lock o k hlock := by
    have hcell : (s.cell o).lock.filter (·.operationId ∉ ids) = some k :=
      (congrArg Cell.lock (cell_releasing s ids o)).symm.trans hlock
    rintro rfl
    exact of_decide_eq_true (Option.filter_eq_some_iff.mp hcell).2 h

/-- Operations that are selected before the first release are selected when their turn comes. -/
theorem run_releaseStale (hnd : ids.Nodup) (h : ∀ id ∈ ids, s.InSelected id)
    (report : CleanupReport) :
    Program.run exec (Orchestrator.releaseStale ids report) s =
      (.ok ⟨report.releasedOperations ++ ids, report.releasedOutpoints ++ unbinding ids s⟩,
        s.releasing ids) := by
  induction ids generalizing s report with
  | nil =>
    unfold Orchestrator.releaseStale unbinding
    rw [List.append_nil, List.append_nil]
    rfl
  | cons id ids ih =>
    obtain ⟨hnew, hrest⟩ := List.nodup_cons.mp hnd
    rw [List.forall_mem_cons] at h
    obtain ⟨op, hop, hphase⟩ := h.1
    have hcall : Program.run exec (Orchestrator.releaseSelectedOperation id) s =
        (.ok (some (s.releaseOperation id .rollingBack).1),
          (s.releaseOperation id .rollingBack).2) := by
      have hget : (s.operations.get id).any (·.phase = .selected) = true := by
        rw [show s.operations.get id = some op from hop]
        exact decide_eq_true hphase
      change (Except.ok (s.releaseSelectedOperation id).1, (s.releaseSelectedOperation id).2) = _
      unfold releaseSelectedOperation
      rw [hget]
      rfl
    have hselected : ∀ id' ∈ ids, (s.releaseOperation id .rollingBack).2.InSelected id' := by
      intro id' hid'
      have hne : id' ≠ id := fun heq => hnew (heq ▸ hid')
      exact ((released_releaseOperation (fun _ => rfl) rfl).1 id' hne).inSelected (h.2 id' hid')
    unfold Orchestrator.releaseStale
    rw [Program.run_bind_ok _ hcall]
    refine (ih hrest hselected _).trans ?_
    rw [List.append_assoc, List.append_assoc]
    rfl

/-! ## The call -/

/-- An operation in `Selected` that was last touched `maxAge` ticks ago or earlier. -/
def StaleReservation (s : InMemoryStateStore) (maxAge : ℕ) (id : OperationId) : Prop :=
  ∃ op, s.getOperation id = some op ∧ op.phase = .selected ∧
    saturatingSub s.tick op.updatedAt ≥ maxAge

/-- What `cleanup_stale_reservations` reports and leaves, and what it leaves alone. -/
structure CleanedUp (maxAge : ℕ) (s : InMemoryStateStore) (report : CleanupReport)
    (s' : InMemoryStateStore) : Prop where
  operations_nodup : report.releasedOperations.Nodup
  mem_operations_iff : ∀ id, id ∈ report.releasedOperations ↔ s.StaleReservation maxAge id
  outpoints_nodup : report.releasedOutpoints.Nodup
  mem_outpoints_iff : ∀ o, o ∈ report.releasedOutpoints ↔
    ∃ id u, s.StaleReservation maxAge id ∧ s.getUtxo o = some u ∧ u.boundTo id = true
  unwound : ∀ id, s.StaleReservation maxAge id → s'.Unwound id
  freed : ∀ o ∈ report.releasedOutpoints, ∃ u u', s.getUtxo o = some u ∧ s'.getUtxo o = some u' ∧
    u'.operationBinding = none ∧ (u'.availability = .selectable ↔
      u.onchainState = .confirmed ∧ u.observationConflict = none ∧ u.availability ≠ .recovering)
  utxo : ∀ o, o ∉ report.releasedOutpoints → s'.getUtxo o = s.getUtxo o
  lock : ∀ o, (∀ k, s.getLock o = some k → ¬ s.StaleReservation maxAge k.operationId) →
    s'.getLock o = s.getLock o
  operation : ∀ id, ¬ s.StaleReservation maxAge id → s'.getOperation id = s.getOperation id
  intent : s'.getIntent = s.getIntent

/-- The operations picked from a listing are the stale ones, each once. -/
theorem enumerates_stale (hk : s.WellKeyed) (maxAge : ℕ) :
    Enumerates ((s.listOperations.filter (Orchestrator.isStale s.tick maxAge)).map
      (·.operationId)) {id | s.StaleReservation maxAge id} := by
  constructor
  · have hnd : (s.operations.values.map (·.operationId)).Nodup := by
      refine Dict.nodup_map_values _ fun k k' v v' hv hv' heq => ?_
      rw [← hk.operation k v hv, ← hk.operation k' v' hv', heq]
    exact hnd.sublist (List.filter_sublist.map _)
  · intro id
    rw [List.mem_map]
    constructor
    · rintro ⟨op, hop, rfl⟩
      obtain ⟨hmem, hstale⟩ := List.mem_filter.mp hop
      obtain ⟨k, hget⟩ := Dict.mem_values.mp hmem
      refine ⟨op, ?_, of_decide_eq_true hstale⟩
      rw [hk.operation k op hget]
      exact hget
    · rintro ⟨op, hget, hstale⟩
      exact ⟨op, List.mem_filter.mpr ⟨Dict.mem_values.mpr ⟨id, hget⟩, decide_eq_true hstale⟩,
        hk.operation id op hget⟩

/-- Stale cleanup releases exactly the selected operations that are at least `maxAge` ticks old,
and touches nothing else. -/
theorem cleanup_exact (h : Run rules empty s) (maxAge : ℕ) :
    ∃ report s', Program.run exec (Orchestrator.cleanupStaleReservations maxAge) s =
      (.ok report, s') ∧ CleanedUp maxAge s report s' := by
  have hk := h.wellKeyed
  obtain ⟨hnd, hmem⟩ := enumerates_stale hk maxAge
  generalize hids : (s.listOperations.filter (Orchestrator.isStale s.tick maxAge)).map
    (·.operationId) = ids at hnd hmem
  obtain ⟨hnd', hmem'⟩ := enumerates_unbinding hk hnd
  have hselected : ∀ id ∈ ids, s.InSelected id := fun id hid => by
    obtain ⟨op, hop, hphase, -⟩ := (hmem id).mp hid
    exact ⟨op, hop, hphase⟩
  have hrun := run_releaseStale hnd hselected ⟨[], []⟩
  rw [List.nil_append, List.nil_append] at hrun
  refine ⟨⟨ids, unbinding ids s⟩, s.releasing ids, ?_, ?_⟩
  · rw [← hrun, ← hids]
    rfl
  have hutxo : ∀ o, (s.releasing ids).getUtxo o = ((s.cell o).releaseAll ids).utxo :=
    fun o => congrArg Cell.utxo (cell_releasing s ids o)
  refine ⟨hnd, hmem, hnd', fun o => (hmem' o).trans ?_, fun id hid => ?_, fun o ho => ?_,
    fun o ho => ?_, fun o ho => ?_, fun id hid => ?_, (releasing_frame ids s).1⟩
  · constructor
    · rintro ⟨id, hid, u, hu, hbound⟩
      exact ⟨id, u, (hmem id).mp hid, hu, hbound⟩
    · rintro ⟨id, u, hid, hu, hbound⟩
      exact ⟨id, (hmem id).mpr hid, u, hu, hbound⟩
  · exact unwound_releasing ((hmem id).mpr hid)
  · obtain ⟨id, hid, u, hu, hbound⟩ := (hmem' o).mp ho
    refine ⟨u, u.releaseBinding, hu, ?_, rfl, ManagedUtxo.releasedAvailability_selectable_iff⟩
    rw [hutxo, Cell.releaseAll_utxo_of_bound hid hu hbound]
  · rw [hutxo, Cell.releaseAll_utxo_of_not_bound fun id hid hbound =>
      ho ((hmem' o).mpr ⟨id, hid, hbound⟩)]
    rfl
  · have hlock := congrArg Cell.lock (cell_releasing s ids o)
    exact hlock.trans (Cell.releaseAll_lock_of_not_mem fun k hlock hid =>
      ho k hlock ((hmem _).mp hid))
  · exact getOperation_releasing fun hid' => hid ((hmem id).mp hid')

theorem cleanup_exact_sample : ∃ report s',
    Program.run exec (Orchestrator.cleanupStaleReservations 1) Sample.state = (.ok report, s') ∧
      CleanedUp 1 Sample.state report s' :=
  cleanup_exact Sample.run 1

end InMemoryStateStore

end Txoscope
