import Txoscope.Service.Preparing

/-!
# Reconciling is nearly serialisable

What an interleaving of `reconcile_snapshot` with one call of another client leaves, call by call:
a serial order, but for what the plan could not know of the outputs that changed under it. The
stale reservations of a cleanup are released one by one, so they may be released on both sides of
the plan; and of two reconciliations the one that is applied last acts on what it has listed before
the other one was applied.
-/

namespace Txoscope

namespace Cell

variable {c d : Cell} {id : OperationId} {ids ids' : List OperationId}

theorem boundTo_iff_binding : c.BoundTo id ↔ ∃ b, c.binding = some b ∧ b.operationId = id := by
  constructor
  · rintro ⟨u, hu, hbound⟩
    obtain ⟨b, hb, rfl⟩ := ManagedUtxo.boundTo_iff.mp hbound
    exact ⟨b, binding_eq_some_iff.mpr ⟨u, hu, hb⟩, rfl⟩
  · rintro ⟨b, hb, rfl⟩
    obtain ⟨u, hu, hbinding⟩ := binding_eq_some_iff.mp hb
    exact ⟨u, hu, ManagedUtxo.boundTo_iff.mpr ⟨b, hbinding, rfl⟩⟩

/-- A plan gives an output to nobody. -/
theorem BoundTo.of_foldl_act {as : List ReconciliationAction}
    (h : (as.foldl act c).BoundTo id) : c.BoundTo id := by
  obtain ⟨b, hb, hid⟩ := boundTo_iff_binding.mp h
  rcases c.binding_foldl_act as with heq | heq
  · exact boundTo_iff_binding.mpr ⟨b, heq.symm.trans hb, hid⟩
  · rw [heq] at hb
    cases hb

/-- An output that is still bound was not released. -/
theorem BoundTo.of_releaseAll (h : (c.releaseAll ids).BoundTo id) : c.BoundTo id ∧ id ∉ ids := by
  by_cases hany : ∃ id' ∈ ids, c.BoundTo id'
  · obtain ⟨id', hid', u, hu, hbound⟩ := hany
    obtain ⟨v, hv, hbound'⟩ := h
    rw [releaseAll_utxo_of_bound hid' hu hbound] at hv
    obtain rfl := Option.some.inj hv
    obtain ⟨b, hb, -⟩ := ManagedUtxo.boundTo_iff.mp hbound'
    cases hb
  · simp only [not_exists, not_and] at hany
    obtain ⟨u, hu, hbound⟩ := h
    rw [releaseAll_utxo_of_not_bound hany] at hu
    exact ⟨⟨u, hu, hbound⟩, fun hid => hany id hid ⟨u, hu, hbound⟩⟩

/-- An output that is still bound is as it was. -/
theorem Agrees.releaseAll_of_bound (h : c.Agrees) (hbound : (c.releaseAll ids).BoundTo id) :
    c.releaseAll ids = c := by
  obtain ⟨hbound', hnot⟩ := hbound.of_releaseAll
  exact h.releaseAll_of_not_bound fun id' hid' hother => hnot (hother.unique hbound' ▸ hid')

/-- What becomes of a cell depends on whether its owner is released. -/
theorem Agrees.releaseAll_congr (h : c.Agrees)
    (hiff : ∀ id, c.BoundTo id → (id ∈ ids ↔ id ∈ ids')) :
    c.releaseAll ids = c.releaseAll ids' := by
  refine Cell.ext (Option.map_congr fun u hu => ?_) ?_
  · cases hb : u.operationBinding with
    | none => rfl
    | some b =>
      have hid := hiff b.operationId ⟨u, hu, ManagedUtxo.boundTo_of_binding hb⟩
      simp only [Option.any_some, decide_eq_true_eq, hid]
  · change c.lock.filter _ = c.lock.filter _
    cases hk : c.lock with
    | none => rfl
    | some k =>
      obtain ⟨u, b, hu, hb, howner, -⟩ := h.locked k hk
      have hid := hiff k.operationId ⟨u, hu, ManagedUtxo.boundTo_iff.mpr ⟨b, hb, howner.symm⟩⟩
      simp only [Option.filter_some, hid]

theorem standing_releaseAll_congr (h : c.standing = d.standing) (ids : List OperationId) :
    (c.releaseAll ids).standing = (d.releaseAll ids).standing := by
  induction ids generalizing c d with
  | nil =>
    rw [releaseAll_nil, releaseAll_nil]
    exact h
  | cons id ids ih =>
    rw [← releaseAll_release, ← releaseAll_release]
    exact ih (standing_release_congr h id)

/-- Up to standing, reconciling an output commutes with releasing it. -/
theorem standing_releaseAll_reconcile {snapshot : ObservationSnapshot} (hs : snapshot.Distinct)
    (o : OutPoint) (ids : List OperationId) (c : Cell) :
    ((c.reconcile snapshot o).releaseAll ids).standing =
      ((c.releaseAll ids).reconcile snapshot o).standing := by
  induction ids generalizing c with
  | nil => rw [releaseAll_nil, releaseAll_nil]
  | cons id ids ih =>
    rw [← releaseAll_release, ← releaseAll_release, ← ih]
    exact standing_releaseAll_congr (standing_release_reconcile hs id o c) ids

end Cell

namespace InMemoryStateStore

variable {s : InMemoryStateStore} {maxAge : ℕ} {ids : List OperationId} {id : OperationId}

/-! ## Cleanup -/

theorem tick_exec (h : s.tick ≤ u64Max) (c : StoreCall) : (exec c s).2.tick ≤ u64Max := by
  have hnext : ∀ x : InMemoryStateStore, x.nextTick.tick ≤ u64Max := fun x => saturatingAdd_le _ _
  cases c with
  | putAccount | putUtxo | advanceTick | applyReconciliation | releaseOperation =>
    exact saturatingAdd_le _ _
  | getAccount | getScope | getUtxo | getLock | getOperation | getIntent | listUtxos
    | listOperations | listPendingIntents | currentTick => exact h
  | putScope scope =>
    change (s.putScope scope).2.tick ≤ _
    unfold putScope
    split
    · exact h
    · exact hnext _
  | persistIntent selection =>
    change (s.persistIntent selection).2.tick ≤ _
    unfold persistIntent
    split
    · split_ifs <;> exact h
    · exact hnext _
  | markIntentCommitted id =>
    change (s.markIntentCommitted id).2.tick ≤ _
    unfold markIntentCommitted
    split
    · exact h
    · split_ifs
      · exact h
      · exact hnext _
  | markIntentFailed id =>
    change (s.markIntentFailed id).2.tick ≤ _
    unfold markIntentFailed
    split
    · exact h
    · split
      · exact h
      · exact h
      · split
        · exact hnext _
        · split
          · exact hnext _
          · exact hnext _
          · exact h
  | applyBatch batch =>
    change (s.applyBatch batch).2.tick ≤ _
    unfold applyBatch
    split
    · exact h
    · exact hnext _
  | releaseSelectedOperation id =>
    change (s.releaseSelectedOperation id).2.tick ≤ _
    unfold releaseSelectedOperation
    split_ifs
    · exact h
    · exact hnext _
  | completeOperation id phase =>
    change (s.completeOperation id phase).2.tick ≤ _
    unfold completeOperation
    split
    · exact h
    · split
      · exact h
      · split_ifs
        · exact h
        · split
          · exact h
          · exact h
          · exact hnext _

theorem Run.tick_le {rules : Ledger.Rules} (h : Run rules empty s) : s.tick ≤ u64Max := by
  induction h with
  | refl => exact Nat.zero_le _
  | tail _ hstep ih =>
    cases hstep with
    | call c _ => exact tick_exec ih c
    | env he => exact he.tick ▸ ih

/-- A reservation is not made younger by a reconciliation. -/
theorem StaleReservation.reconciled (h : s.StaleReservation maxAge id) (ht : s.tick ≤ u64Max)
    (snapshot : ObservationSnapshot) : (s.reconciled snapshot).StaleReservation maxAge id := by
  obtain ⟨op, hop, hphase, hage⟩ := h
  have htick : s.tick ≤ (s.reconciled snapshot).tick := by
    have hnext : (s.reconciled snapshot).tick = saturatingAdd s.tick 1 :=
      congrArg Ledger.tick (s.toLedger_applyReconciliation _)
    rw [hnext]
    exact le_saturatingAdd ht 1
  exact ⟨op, (getOperation_applyPlan snapshot s s id).trans hop, hphase,
    hage.le.trans (Nat.sub_le_sub_right htick _)⟩

theorem after_releases (hnd : ids.Nodup) (h : ∀ id ∈ ids, s.InSelected id) :
    Program.after exec (ids.map .releaseSelectedOperation) s = s.releasing ids :=
  ((performs_releaseStale ids ⟨[], []⟩).run_snd s).symm.trans
    (congrArg Prod.snd (run_releaseStale hnd h ⟨[], []⟩))

theorem phase_releasing (s : InMemoryStateStore) (ids : List OperationId) (id : OperationId) :
    ((s.releasing ids).getOperation id).map (·.phase) =
      if id ∈ ids then some .rollingBack else (s.getOperation id).map (·.phase) := by
  split_ifs with hmem
  · obtain ⟨op, hop, hphase⟩ := getOperation_releasing_of_mem (s := s) hmem
    rw [hop, Option.map_some, hphase]
  · rw [getOperation_releasing hmem]

theorem InSelected.releasing (h : s.InSelected id) (hid : id ∉ ids) :
    (s.releasing ids).InSelected id := by
  obtain ⟨op, hop, hphase⟩ := h
  exact ⟨op, (getOperation_releasing hid).trans hop, hphase⟩

/-- What an interleaving with a cleanup may leave: the serial order in which the snapshot comes
first, or the other one, in which every output is as in one of the two unless the snapshot is about
it and it was released before the plan was applied. -/
inductive CleanedNextTo (snapshot : ObservationSnapshot) (owner : String) (maxAge : ℕ)
    (s listed found s' : InMemoryStateStore) : Prop where
  | before (serial : s' = s.reconciledBefore snapshot
      ((Orchestrator.Method.cleanupStaleReservations maxAge).program owner))
  | after (standing : s'.SameStanding (s.reconciledAfter snapshot
        ((Orchestrator.Method.cleanupStaleReservations maxAge).program owner)))
      (silent : ∀ o, snapshot.Silent o → s'.cell o = (s.reconciledAfter snapshot
        ((Orchestrator.Method.cleanupStaleReservations maxAge).program owner)).cell o)
      (unchanged : ∀ o, listed.cell o = found.cell o →
        s'.cell o = (s.reconciledAfter snapshot
          ((Orchestrator.Method.cleanupStaleReservations maxAge).program owner)).cell o ∨
        s'.cell o = (s.reconciledBefore snapshot
          ((Orchestrator.Method.cleanupStaleReservations maxAge).program owner)).cell o)

section Cleanup

variable {snapshot : ObservationSnapshot} {owner : String} {q' : Client Unit}
  {res : DomainResult Unit} {listed found s' : InMemoryStateStore}
  {ids₀ ids₁ ids₂ : List OperationId}

theorem selected_of_stale (hk : s.WellKeyed) (maxAge : ℕ) :
    (s.stale maxAge).Nodup ∧ ∀ id ∈ s.stale maxAge, s.InSelected id := by
  obtain ⟨hnd, hmem⟩ := enumerates_stale hk maxAge
  refine ⟨hnd, fun id hid => ?_⟩
  obtain ⟨op, hop, hphase, -⟩ := (hmem id).mp hid
  exact ⟨op, hop, hphase⟩

theorem run_cleanup (hk : s.WellKeyed) (owner : String) (maxAge : ℕ) :
    (Program.run exec ((Orchestrator.Method.cleanupStaleReservations maxAge).program owner) s).2 =
      s.releasing (s.stale maxAge) := by
  obtain ⟨hnd, hselected⟩ := selected_of_stale hk maxAge
  have hclean : Program.run exec (Orchestrator.cleanupStaleReservations maxAge) s =
      Program.run exec (Orchestrator.releaseStale (s.stale maxAge) ⟨[], []⟩) s := rfl
  unfold Orchestrator.Method.program
  rw [Program.run_bind_ok _ (hclean.trans (run_releaseStale hnd hselected ⟨[], []⟩))]
  rfl

/-- The releases before the outputs are listed, until the plan is applied, and after it. -/
theorem Spliced.releasing {t : InMemoryStateStore}
    (h : Spliced snapshot (ids₀.map .releaseSelectedOperation) (ids₁.map .releaseSelectedOperation)
      (ids₂.map .releaseSelectedOperation) s listed found s' t)
    (hnd : (ids₀ ++ ids₁ ++ ids₂).Nodup)
    (hselected : ∀ id ∈ ids₀ ++ ids₁ ++ ids₂, s.InSelected id) :
    listed = s.releasing ids₀ ∧ found = listed.releasing ids₁ ∧
      s' = (applyPlan snapshot listed found).releasing ids₂ ∧ t = found.releasing ids₂ := by
  obtain ⟨hlisted, hfound, hleft, halone⟩ := h
  obtain ⟨hnd₀₁, hnd₂, hapart₂⟩ := List.nodup_append.mp hnd
  obtain ⟨hnd₀, hnd₁, hapart₁⟩ := List.nodup_append.mp hnd₀₁
  simp only [List.forall_mem_append] at hselected
  obtain ⟨⟨hselected₀, hselected₁⟩, hselected₂⟩ := hselected
  have hlisted' := hlisted.trans (after_releases hnd₀ hselected₀)
  have hrest₁ : ∀ id ∈ ids₁, listed.InSelected id := fun id hid =>
    hlisted' ▸ (hselected₁ id hid).releasing fun hid₀ => hapart₁ id hid₀ id hid rfl
  have hfound' := hfound.trans (after_releases hnd₁ hrest₁)
  have hrest₂ : ∀ id ∈ ids₂, found.InSelected id := by
    intro id hid
    have hnot : id ∉ ids₀ ++ ids₁ := fun hid₀₁ => hapart₂ id hid₀₁ id hid rfl
    rw [List.mem_append, not_or] at hnot
    rw [hfound', hlisted']
    exact ((hselected₂ id hid).releasing hnot.1).releasing hnot.2
  have hplanned : ∀ id ∈ ids₂, (applyPlan snapshot listed found).InSelected id := fun id hid => by
    obtain ⟨op, hop, hphase⟩ := hrest₂ id hid
    exact ⟨op, (getOperation_applyPlan snapshot listed found id).trans hop, hphase⟩
  exact ⟨hlisted', hfound', hleft.trans (after_releases hnd₂ hplanned),
    halone.trans (after_releases hnd₂ hrest₂)⟩

theorem Run.agrees (h : Run freeRules empty s) (o : OutPoint) : (s.cell o).Agrees :=
  (Run.owned h).agrees o

theorem boundTo_of_reconciled {o : OutPoint} (h : ((s.reconciled snapshot).cell o).BoundTo id) :
    (s.cell o).BoundTo id := by
  rw [cell_reconciled] at h
  exact h.of_foldl_act

/-- The releases of the outputs that are released after the plan, as in the serial order in which the
snapshot comes first. -/
theorem cell_released_before (hs : Run freeRules empty s) {o : OutPoint}
    (hids : ∀ id ∈ ids₂, s.StaleReservation maxAge id) (hid : id ∈ ids₂)
    (hbound : (s.cell o).BoundTo id) :
    ((s.reconciled snapshot).cell o).releaseAll ids₂ =
      (s.reconciledBefore snapshot
        ((Orchestrator.Method.cleanupStaleReservations maxAge).program owner)).cell o := by
  have hr := hs.reconciled snapshot
  unfold reconciledBefore
  rw [run_cleanup hr.wellKeyed, cell_releasing]
  refine (hr.agrees o).releaseAll_congr fun id' hbound' => ?_
  obtain rfl : id' = id := (boundTo_of_reconciled hbound').unique hbound
  refine iff_of_true hid (((enumerates_stale hr.wellKeyed maxAge).2 id').mpr ?_)
  exact (hids id' hid).reconciled (Run.tick_le hs) snapshot

theorem Overlap.cleaned (h : Overlap snapshot
    ((Orchestrator.Method.cleanupStaleReservations maxAge).program owner) s listed q' found res s')
    (hs : Run freeRules empty s) (hd : snapshot.Distinct) :
    CleanedNextTo snapshot owner maxAge s listed found s' := by
  rcases h.cleanup with ⟨hserial, -, -⟩ | ⟨ids₀, ids₁, ids₂, hids, hspliced⟩
  · exact .before hserial
  obtain ⟨hnd, hselected⟩ := selected_of_stale hs.wellKeyed maxAge
  rw [hids] at hnd hselected
  obtain ⟨hlisted, -, hleft, halone⟩ := hspliced.releasing hnd hselected
  have hkeeps : ∀ rules, Keeps rules []
      ((Orchestrator.Method.cleanupStaleReservations maxAge).program owner) := fun rules =>
    .bind (keeps_settles (Orchestrator.cleanupStaleReservations_onlySettles maxAge)) fun _ => .pure _
  obtain ⟨hlistedKeyed, hfoundKeyed, hcontinues⟩ := h.continues hs.wellKeyed (hkeeps _)
  obtain ⟨hrun, hrun₁⟩ := h.runs hs.wellKeyed (hkeeps freeRules)
  have hfoundRun : Run freeRules empty found := (hs.trans hrun).trans hrun₁
  have hleft' : ∀ o, s'.cell o = ((applyPlan snapshot listed found).cell o).releaseAll ids₂ :=
    fun o => hleft ▸ cell_releasing _ ids₂ o
  have hafter : ∀ o, (s.reconciledAfter snapshot
      ((Orchestrator.Method.cleanupStaleReservations maxAge).program owner)).cell o =
        ((found.cell o).releaseAll ids₂).reconcile snapshot o := by
    intro o
    unfold reconciledAfter
    rw [cell_reconciled_of_distinct (wellKeyed_run hs.wellKeyed _) hd]
    exact congrArg (Cell.reconcile snapshot o)
      ((congrArg (fun x => cell x o) halone).trans (cell_releasing found ids₂ o))
  refine .after ⟨fun id => ?_, fun o => ?_⟩ (fun o ho => ?_) fun o heq => ?_
  · have hphase : (s.reconciledAfter snapshot
        ((Orchestrator.Method.cleanupStaleReservations maxAge).program owner)).getOperation id =
          (found.releasing ids₂).getOperation id :=
      (getOperation_applyPlan snapshot _ _ id).trans (congrArg (fun x => getOperation x id) halone)
    rw [hphase, hleft, phase_releasing, phase_releasing, getOperation_applyPlan]
  · rw [hleft', hafter, cell_applyPlan hlistedKeyed]
    refine congrArg Cell.undated ?_
    exact (Cell.standing_releaseAll_congr ((hcontinues o).standing_reconcileFrom hd o) ids₂).trans
      (Cell.standing_releaseAll_reconcile hd o ids₂ _)
  · rw [hleft', hafter, cell_applyPlan hlistedKeyed, Cell.reconcileFrom_of_silent ho,
      Cell.reconcile_of_silent hd ho]
  · have hplan := cell_applyPlan_of_eq hd hlistedKeyed heq
    by_cases howned : ∃ id ∈ ids₂, (found.cell o).BoundTo id
    · -- the output was not released before the plan was made, so it is as it was in the beginning
      obtain ⟨id, hid, hbound⟩ := howned
      have hreleased : found.cell o = (s.cell o).releaseAll ids₀ := by
        rw [← heq, hlisted, cell_releasing]
      have hsame : found.cell o = s.cell o :=
        hreleased.trans ((hs.agrees o).releaseAll_of_bound (hreleased ▸ hbound))
      refine .inr ?_
      rw [hleft', hplan, hsame, ← cell_reconciled_of_distinct hs.wellKeyed hd]
      refine cell_released_before hs (fun id hid => ?_) hid (hsame ▸ hbound)
      have hmem : id ∈ s.stale maxAge := hids ▸ List.mem_append_right _ hid
      exact ((enumerates_stale hs.wellKeyed maxAge).2 id).mp hmem
    · -- nobody releases the output any more
      simp only [not_exists, not_and] at howned
      refine .inl ?_
      rw [hleft', hafter, hplan, (hfoundRun.agrees o).releaseAll_of_not_bound howned,
        ← cell_reconciled_of_distinct hfoundKeyed hd]
      refine ((hfoundRun.reconciled snapshot).agrees o).releaseAll_of_not_bound ?_
      exact fun id hid hbound => howned id hid (boundTo_of_reconciled hbound)

end Cleanup

/-! ## Two reconciliations -/

/-- `last` was planned in `s`, and it is applied after `first`. The outputs have the owners of the
serial order, and each has the on-chain state of one of the two; an output that `last` is silent
about, or that `first` did not change, is as in the serial order. -/
structure AppliedOver (first last : ObservationSnapshot) (s s' : InMemoryStateStore) : Prop where
  ownership : s'.SameOwnership ((s.reconciled first).reconciled last)
  onchainState : ∀ o,
    (s'.cell o).onchainState = (((s.reconciled first).reconciled last).cell o).onchainState ∨
    (s'.cell o).onchainState = (((s.reconciled last).reconciled first).cell o).onchainState
  unchanged : ∀ o, last.Silent o ∨ (s.reconciled first).cell o = s.cell o →
    s'.cell o = ((s.reconciled first).reconciled last).cell o

/-- What an interleaving of two reconciliations may leave: a serial order, or one of the plans is
applied over the other one. -/
inductive ReconciledNextTo (snapshot other : ObservationSnapshot) (s s' : InMemoryStateStore) :
    Prop where
  | before (serial : s' = (s.reconciled snapshot).reconciled other)
  | after (serial : s' = (s.reconciled other).reconciled snapshot)
  | first (applied : AppliedOver snapshot other s s')
  | last (applied : AppliedOver other snapshot s s')

section Plans

variable {snapshot other first last : ObservationSnapshot} {owner : String} {q' : Client Unit}
  {res : DomainResult Unit} {listed found s' : InMemoryStateStore}

theorem appliedOver_applyPlan (hs : Run freeRules empty s) (hfirst : first.Distinct)
    (hlast : last.Distinct) : AppliedOver first last s (applyPlan last s (s.reconciled first)) := by
  have hk := hs.wellKeyed
  have hcell : ∀ o, (applyPlan last s (s.reconciled first)).cell o =
      ((s.cell o).reconcile first o).reconcileFrom last o (s.cell o).utxo := by
    intro o
    rw [cell_applyPlan hk, cell_reconciled_of_distinct hk hfirst]
    rfl
  have hserial : ∀ {first last : ObservationSnapshot}, first.Distinct → last.Distinct → ∀ o,
      ((s.reconciled first).reconciled last).cell o =
        ((s.cell o).reconcile first o).reconcile last o := by
    intro first last hfirst hlast o
    rw [cell_reconciled_of_distinct (hk.reconciled first) hlast,
      cell_reconciled_of_distinct hk hfirst]
  have hempty : ∀ o, (s.cell o).utxo = none → (s.cell o).lock = none := by
    intro o hnone
    refine Option.eq_none_iff_forall_ne_some.mpr fun k hk => ?_
    obtain ⟨u, -, hu, -⟩ := (hs.agrees o).locked k hk
    rw [hnone] at hu
    cases hu
  refine ⟨⟨fun id => ?_, fun o => ?_⟩, fun o => ?_, fun o ho => ?_⟩
  · exact congrArg _ ((getOperation_applyPlan last s _ id).trans
      (getOperation_applyPlan last _ _ id).symm)
  · rw [hcell, hserial hfirst hlast]
    exact congrArg Cell.undated (Cell.reconcileFrom_reconcile hlast hfirst (hempty o) o).1
  · rw [hcell, hserial hfirst hlast, hserial hlast hfirst]
    exact (Cell.reconcileFrom_reconcile hlast hfirst (hempty o) o).2
  · rw [hcell, hserial hfirst hlast]
    rcases ho with ho | heq
    · rw [Cell.reconcileFrom_of_silent ho, Cell.reconcile_of_silent hlast ho]
    · rw [cell_reconciled_of_distinct hk hfirst] at heq
      rw [heq, Cell.reconcileFrom_utxo hlast]

/-- What an interleaving with another reconciliation leaves. -/
theorem Overlap.reconciled (h : Overlap snapshot
    ((Orchestrator.Method.reconcileSnapshot other).program owner) s listed q' found res s')
    (hs : Run freeRules empty s) (hd : snapshot.Distinct) (hother : other.Distinct) :
    ReconciledNextTo snapshot other s s' := by
  change Overlap snapshot (Orchestrator.reconcileSnapshot other >>= fun _ => pure ()) s listed q'
    found res s' at h
  rw [reconcileSnapshot_calls] at h
  rcases h.started (c := .listUtxos)
    [.applyReconciliation (ReconciliationPlanner.planFor s.listUtxos other)] trivial
    (.performs (.last fun r => by cases r <;> exact ⟨_, rfl⟩)) with
    ⟨hserial, -, -⟩ | ⟨cs₀, cs₁, cs₂, hcs, hlisted, hfound, hleft, -⟩
  · exact .before hserial
  cases cs₀ with
  | cons c cs₀ =>
    -- the other plan was applied before the outputs were listed
    simp only [List.cons_append, List.cons.injEq] at hcs
    obtain ⟨rfl, hcs⟩ := hcs
    obtain ⟨hcs₀₁, rfl⟩ := List.append_eq_nil_iff.mp hcs.symm
    obtain ⟨rfl, rfl⟩ := List.append_eq_nil_iff.mp hcs₀₁
    refine .after ?_
    rw [hleft, hfound, hlisted]
    rfl
  | nil =>
    cases cs₁ with
    | cons c cs₁ =>
      -- the other plan was applied first
      simp only [List.nil_append, List.cons_append, List.cons.injEq] at hcs
      obtain ⟨rfl, hcs⟩ := hcs
      obtain ⟨rfl, rfl⟩ := List.append_eq_nil_iff.mp hcs.symm
      refine .last ?_
      have hover : s' = applyPlan snapshot s (s.reconciled other) := by
        rw [hleft, hfound, hlisted]
        rfl
      rw [hover]
      exact appliedOver_applyPlan hs hother hd
    | nil =>
      -- the other plan was applied last
      have hover : s' = applyPlan other s (s.reconciled snapshot) := by
        rw [hleft, hfound, hlisted, ← show _ = cs₂ from hcs]
        rfl
      rw [hover]
      exact .first (appliedOver_applyPlan hs hd hother)

end Plans

/-! ## Every call -/

/-- What the other client may call next to a reconciliation. -/
inductive OtherCall where
  | releaseOperation (id : OperationId)
  | prepareOperation (request : SelectionRequest)
  | completeOperation (id : OperationId) (completedPhase : OperationPhase)
      (actualOutpoints : List OutPoint)
  | cleanupStaleReservations (maxAge : ℕ)
  | reconcileSnapshot (other : ObservationSnapshot) (distinct : other.Distinct)

namespace OtherCall

def method : OtherCall → Orchestrator.Method
  | releaseOperation id => .releaseOperation id
  | prepareOperation request => .prepareOperation request
  | completeOperation id phase outpoints => .completeOperation id phase outpoints
  | cleanupStaleReservations maxAge => .cleanupStaleReservations maxAge
  | reconcileSnapshot other _ => .reconcileSnapshot other

/-- What an interleaving with the call may leave, if the outputs are listed in `listed` and the plan
is applied in `found`. -/
def NextTo (snapshot : ObservationSnapshot) (owner : String) (s listed found : InMemoryStateStore)
    (res : DomainResult Unit) (s' : InMemoryStateStore) : OtherCall → Prop
  | prepareOperation request => s.PreparedNextTo snapshot owner request listed found res s'
  | cleanupStaleReservations maxAge => CleanedNextTo snapshot owner maxAge s listed found s'
  | reconcileSnapshot other _ => ReconciledNextTo snapshot other s s'
  | releaseOperation id =>
    Matches snapshot listed found s'
        (s.reconciledBefore snapshot ((Orchestrator.Method.releaseOperation id).program owner)) ∨
      Matches snapshot listed found s'
        (s.reconciledAfter snapshot ((Orchestrator.Method.releaseOperation id).program owner))
  | completeOperation id phase outpoints =>
    Matches snapshot listed found s' (s.reconciledBefore snapshot
        ((Orchestrator.Method.completeOperation id phase outpoints).program owner)) ∨
      Matches snapshot listed found s' (s.reconciledAfter snapshot
        ((Orchestrator.Method.completeOperation id phase outpoints).program owner))

end OtherCall

/-- One interleaving of the two: the outputs are listed after `n` calls of the other client, and the
plan is applied after `m` more of them. -/
def played (snapshot : ObservationSnapshot) (p : Client Unit) (n m : ℕ) (s : InMemoryStateStore) :
    InMemoryStateStore :=
  let listed := Program.advance exec n p s
  let found := Program.advance exec m listed.1 listed.2
  (Program.run exec found.1 (applyPlan snapshot listed.2 found.2)).2

theorem interleave_played (snapshot : ObservationSnapshot) (p : Client Unit) (n m : ℕ)
    (s : InMemoryStateStore) : ∃ ra rb, Program.Interleave exec
      (Orchestrator.reconcileSnapshot snapshot) p s ra rb (played snapshot p n m s) := by
  obtain ⟨ra, h⟩ := interleave_reconcileSnapshot.mpr ⟨_, _, _,
    ⟨_, Program.reaches_advance n p s, Program.reaches_advance m _ _⟩, rfl⟩
  exact ⟨ra, _, h⟩

section Every

variable {snapshot : ObservationSnapshot} {owner : String} {ra : DomainResult ReconcilePlan}
  {rb : DomainResult Unit} {s' : InMemoryStateStore}

/-- A reconciliation next to another call ends in a serial order, but for what `NextTo` leaves
open. -/
theorem reconcile_serialises (call : OtherCall) (hs : Run freeRules empty s)
    (hd : snapshot.Distinct) (h : Program.Interleave exec (Orchestrator.reconcileSnapshot snapshot)
      (call.method.program owner) s ra rb s') :
    ∃ listed q' found, Overlap snapshot (call.method.program owner) s listed q' found rb s' ∧
      call.NextTo snapshot owner s listed found rb s' := by
  obtain ⟨listed, q', found, hoverlap⟩ := interleave_reconcileSnapshot.mp ⟨ra, h⟩
  refine ⟨listed, q', found, hoverlap, ?_⟩
  cases call with
  | prepareOperation request => exact hoverlap.prepared hs hd
  | cleanupStaleReservations maxAge => exact hoverlap.cleaned hs hd
  | reconcileSnapshot other distinct => exact hoverlap.reconciled hs hd distinct
  | releaseOperation id =>
    refine hoverlap.serialises (mayIssue_releaseOperation s id).drop ?_ hd hs.wellKeyed
    exact .bind (keeps_settles (Orchestrator.releaseOperation_onlySettles id)) fun _ => .pure _
  | completeOperation id phase outpoints =>
    refine hoverlap.serialises (mayIssue_completeOperation s id phase outpoints).drop ?_ hd
      hs.wellKeyed
    exact .bind (keeps_settles (Orchestrator.completeOperation_onlySettles id phase outpoints))
      fun _ => .pure _

end Every

theorem reconcile_serialises_sample : ∃ rb listed q' found,
    Overlap Sample.fullSnapshot ((Orchestrator.Method.releaseOperation Sample.operationId).program
        "owner") Sample.state listed q' found rb (played Sample.fullSnapshot
          ((Orchestrator.Method.releaseOperation Sample.operationId).program "owner") 0 2
          Sample.state) ∧
      (OtherCall.releaseOperation Sample.operationId).NextTo Sample.fullSnapshot "owner"
        Sample.state listed found rb (played Sample.fullSnapshot
          ((Orchestrator.Method.releaseOperation Sample.operationId).program "owner") 0 2
          Sample.state) := by
  obtain ⟨ra, rb, h⟩ := interleave_played Sample.fullSnapshot
    ((Orchestrator.Method.releaseOperation Sample.operationId).program "owner") 0 2 Sample.state
  exact ⟨rb, reconcile_serialises (.releaseOperation Sample.operationId) Sample.run (by decide) h⟩

/-! ## No call is serialisable -/

/-- From some store an interleaving with the call ends in neither of the serial orders. -/
def Unserialised (snapshot : ObservationSnapshot) (call : OtherCall) : Prop :=
  snapshot.Distinct ∧ ∃ s ra rb s', Run freeRules empty s ∧ Program.Interleave exec
    (Orchestrator.reconcileSnapshot snapshot) (call.method.program "owner") s ra rb s' ∧
      ¬ s'.SameRecords (s.reconciledBefore snapshot (call.method.program "owner")) ∧
      ¬ s'.SameRecords (s.reconciledAfter snapshot (call.method.program "owner"))

theorem unserialised_of_played {snapshot : ObservationSnapshot} {call : OtherCall} (n m : ℕ)
    (hd : snapshot.Distinct) (hs : Run freeRules empty s)
    (hbefore : ¬ (played snapshot (call.method.program "owner") n m s).SameRecords
      (s.reconciledBefore snapshot (call.method.program "owner")))
    (hafter : ¬ (played snapshot (call.method.program "owner") n m s).SameRecords
      (s.reconciledAfter snapshot (call.method.program "owner"))) : Unserialised snapshot call := by
  obtain ⟨ra, rb, h⟩ := interleave_played snapshot (call.method.program "owner") n m s
  exact ⟨hd, s, ra, rb, _, hs, h, hbefore, hafter⟩

theorem SameUpTo.utxo_eq {t : InMemoryStateStore} (h : s.SameRecords t) (o : OutPoint) :
    s.getUtxo o = t.getUtxo o := congrArg Cell.utxo (h.cell o)

namespace Sample

def secondOutpoint : OutPoint := ⟨"bb", 1⟩

def thirdOutpoint : OutPoint := ⟨"cc", 2⟩

def sighting (o : OutPoint) (confirmation : ObservedConfirmation)
    (spendStatus : ObservedSpendStatus) : ObservedUtxo :=
  ⟨o, accountId, scopeId, 1000, confirmation, spendStatus⟩

def news (utxos : List ObservedUtxo) : ObservationSnapshot := ⟨3, .incremental, utxos⟩

/-- The reserved output is missing from a full snapshot. -/
def lost : InMemoryStateStore := state.reconciled ⟨2, .full, []⟩

theorem lost_run : Run freeRules empty lost := run.reconciled ⟨2, .full, []⟩

/-- Two outputs on offer. -/
def doubled : InMemoryStateStore :=
  Program.after exec (calls.take 3 ++ [.putUtxo (.new secondOutpoint accountId scopeId 1000)]) empty

theorem doubled_run : Run freeRules empty doubled := Program.steps_after (by decide)

def secondSelection : OperationSelection :=
  ⟨⟨"other"⟩, [secondOutpoint], scopeId, [⟨secondOutpoint, .btcSend⟩], none⟩

/-- Two outputs, reserved by one operation each. -/
def busy : InMemoryStateStore :=
  Program.after exec (calls ++ [.putUtxo (.new secondOutpoint accountId scopeId 1000),
    .persistIntent secondSelection, .applyBatch ⟨secondSelection, .selected, "owner"⟩]) empty

theorem busy_run : Run freeRules empty busy := Program.steps_after (by decide)

def reserving : CapabilitySet := {.reserveSupport, .singleTargetReserve}

/-- Three outputs that could be reserved, two of which are missing. -/
def shelved : InMemoryStateStore :=
  (Program.after exec ([.putAccount ⟨accountId, "account", [], reserving⟩,
    .putScope ⟨scopeId, accountId, "descriptor", "derivation", reserving, 0⟩] ++
    [outpoint, secondOutpoint, thirdOutpoint].map
      fun o => .putUtxo (.new o accountId scopeId 1000)) empty).reconciled
    (news [sighting outpoint .unknown .missing, sighting secondOutpoint .unknown .missing])

theorem shelved_run : Run freeRules empty shelved :=
  Run.reconciled (Program.steps_after (by decide)) _

end Sample

open Sample in
/-- None of the calls is serialisable next to a reconciliation. -/
theorem reconcile_not_serialisable :
    Unserialised (news [sighting outpoint (.confirmed 1 1) .unspent])
      (.releaseOperation operationId) ∧
    Unserialised (news [sighting outpoint (.confirmed 1 1) .unspent])
      (.completeOperation operationId .broadcast [outpoint]) ∧
    Unserialised (news [sighting secondOutpoint (.confirmed 1 1) (.spent "dd")])
      (.prepareOperation (.btcSend operationId accountId 500)) ∧
    Unserialised (news [sighting outpoint (.confirmed 1 1) .unspent,
        sighting secondOutpoint (.confirmed 1 1) .unspent])
      (.prepareOperation (.manualReservationFirstAvailable operationId accountId
        [outpoint, secondOutpoint, thirdOutpoint] 7)) ∧
    Unserialised ⟨4, .full, []⟩ (.cleanupStaleReservations 0) ∧
    Unserialised (news [sighting outpoint .mempool .unspent,
        sighting secondOutpoint .unknown .unspent])
      (.reconcileSnapshot (news [sighting outpoint (.confirmed 1 1) .unspent,
        sighting secondOutpoint .mempool .unspent]) (by decide)) := by
  refine ⟨unserialised_of_played 0 2 (by decide) lost_run (fun h => ?_) fun h => ?_,
    unserialised_of_played 0 9 (by decide) lost_run (fun h => ?_) fun h => ?_,
    unserialised_of_played 0 4 (by decide) doubled_run (fun h => ?_) fun h => ?_,
    unserialised_of_played 0 3 (by decide) shelved_run (fun h => ?_) fun h => ?_,
    unserialised_of_played 3 0 (by decide) busy_run (fun h => ?_) fun h => ?_,
    unserialised_of_played 0 1 (by decide) doubled_run (fun h => ?_) fun h => ?_⟩
  · exact absurd (h.utxo_eq outpoint) (by decide)
  · exact absurd (h.utxo_eq outpoint) (by decide)
  · exact absurd (h.utxo_eq outpoint) (by decide)
  · exact absurd (h.utxo_eq outpoint) (by decide)
  · exact absurd (h.phase operationId) (by decide)
  · exact absurd (h.phase operationId) (by decide)
  · exact absurd (h.utxo_eq outpoint) (by decide)
  · exact absurd (h.utxo_eq secondOutpoint) (by decide)
  · exact absurd (h.utxo_eq secondOutpoint) (by decide)
  · exact absurd (h.utxo_eq outpoint) (by decide)
  · exact absurd (h.utxo_eq outpoint) (by decide)
  · exact absurd (h.utxo_eq secondOutpoint) (by decide)

end InMemoryStateStore

end Txoscope
