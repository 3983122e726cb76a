import Txoscope.Core.Undoing
import Txoscope.Sim.Invariants
import Txoscope.Sqlite.Sharing

/-!
# Observations on a shared database

An output that no plan is about can be reserved and released any number of times without a trace
(`shared_undone`). Where each plan is applied to the outputs it was made from, the checker of the
simulation has nothing to report, however the clients are interleaved (`shared_checked`).
-/

namespace Txoscope

open SqliteCodec Transaction

namespace Statement

/-- The plan that is applied. -/
def plan? : Statement → Option ReconcilePlan
  | call (.applyReconciliation plan) _ => some plan
  | _ => none

end Statement

namespace SqliteStateStore

open InvariantChecker

variable {db : Database} {l : Ledger} {o : OutPoint} {u : ManagedUtxo}

/-! ## Outputs that are not observed -/

/-- New outputs, and no plan about `o`. -/
def Unobserved (o : OutPoint) (db : Database) (st : Statement) : Prop :=
  PutsNew db st ∧ ∀ plan ∈ st.plan?, plan.actionsOn o = []

instance (o : OutPoint) (db : Database) (st : Statement) : Decidable (Unobserved o db st) :=
  inferInstanceAs (Decidable (PutsNew db st ∧ ∀ plan ∈ st.plan?, plan.actionsOn o = []))

/-- What is put in is new, and what else is asked of a statement is asked of its plan. -/
theorem Enforces.of_putsNew {may : Database → Statement → Prop}
    {plans : Ledger → ReconcilePlan → Prop} (hputs : ∀ db st, may db st → PutsNew db st)
    (hplans : ∀ db l st, Represents db l → may db st → ∀ plan ∈ st.plan?, plans l plan) :
    Enforces may plans anyReplaced := by
  intro db l st h hst
  have hnew := putsNew_enforces db l st h (hputs db st hst)
  cases st with
  | recordIntent | writeTick => trivial
  | call c hc =>
    cases c with
    | putUtxo u => exact hnew
    | applyReconciliation plan => exact hplans db l _ h hst plan rfl
    | _ => trivial

theorem unobserved_enforces (o : OutPoint) :
    Enforces (Unobserved o) (fun _ plan => plan.actionsOn o = []) anyReplaced :=
  .of_putsNew (fun _ _ hst => hst.1) fun _ _ _ _ hst => hst.2

/-- Whatever clients share a database: an output that may be spent, and that no plan is about from
then on, is later as it was, or it is that output with the reservation of the operation that locks
it, or it was sent. -/
theorem shared_undone {x y : Shared} (h : SharedRun PutsNew (Database.empty, []) x)
    (hu : x.1.getUtxo o = .ok (some u)) (hspendable : u.isPolicySpendable = true)
    (h' : SharedRun (Unobserved o) x y) :
    ∃ c : Cell, y.1.getUtxo o = .ok c.utxo ∧ y.1.getLock o = .ok c.lock ∧ c.Undoable u := by
  obtain ⟨⟨l, hl, -⟩, hflight⟩ := SharedLedger.run (x := (Database.empty, [])) putsNew_enforces
    sharedLedger_empty (List.forall_mem_nil _) h
  obtain ⟨⟨l', hl', hmoves⟩, -⟩ := hl.run (unobserved_enforces o) hflight h'
  have hu : l.utxo o = some u := Except.ok.inj ((hl.represents.utxo.read o).symm.trans hu)
  have hfree : l.lock o = none := by
    refine (hl.attributed.agrees o).unlocked ?_
    change (l.utxo o).bind (·.operationBinding) = none
    rw [hu]
    exact (ManagedUtxo.isPolicySpendable_iff.mp hspendable).2.2.1
  have hundoable : (l'.cell o).Undoable u :=
    hmoves.invariant (I := fun l => (l.cell o).Undoable u)
      (fun _ _ hc hm => Ledger.undoable_racyMove (fun l u hu => (sharedRules_puts l u hu).1)
        (fun _ _ hplan => hplan) hspendable hc hm) (.free hu hfree)
  exact ⟨l'.cell o, hl'.represents.utxo.read o, hl'.represents.lock o, hundoable⟩

namespace Sample

/-- One output, as yet free. -/
@[irreducible]
def registered : Database := afterMethods "owner" (reserving.take 3) Database.empty

/-- The output is reserved and released again. -/
def attempting : List Orchestrator.Method := reserving.drop 3 ++ [.releaseOperation ⟨"send"⟩]

theorem registered_run : SharedRun PutsNew (Database.empty, []) (registered, []) := by
  unfold registered
  exact sharedRun_afterMethods (by decide +kernel)

end Sample

theorem shared_undone_sample :
    ∃ c : Cell, (afterMethods "owner" Sample.attempting Sample.registered).getUtxo ⟨"aa", 0⟩ =
        .ok c.utxo ∧
      (afterMethods "owner" Sample.attempting Sample.registered).getLock ⟨"aa", 0⟩ = .ok c.lock ∧
      c.Undoable (ManagedUtxo.new ⟨"aa", 0⟩ Sample.accountId Sample.scopeId 1000) := by
  obtain ⟨u, hu, hnew⟩ := Sample.found (r := Sample.registered.getUtxo ⟨"aa", 0⟩)
    (p := fun u => u = ManagedUtxo.new ⟨"aa", 0⟩ Sample.accountId Sample.scopeId 1000) (by
      unfold Sample.registered
      decide +kernel)
  obtain rfl := of_decide_eq_true hnew
  have hwithin : MethodsWithin (Unobserved ⟨"aa", 0⟩) "owner" Sample.attempting
      Sample.registered := by
    unfold Sample.registered
    decide +kernel
  exact shared_undone Sample.registered_run hu rfl (sharedRun_afterMethods hwithin)

/-! ## Plans that are fresh -/

/-- The plan is made from the outputs there are, for a snapshot that mentions each outpoint at most
once. -/
def IsFresh (db : Database) (plan : ReconcilePlan) : Prop :=
  ∃ utxos snapshot, db.listUtxos = .ok utxos ∧ snapshot.Distinct ∧
    plan = ReconciliationPlanner.planFor utxos snapshot

/-- New outputs, and plans that are applied to the outputs they were made from. -/
def FreshPlans (db : Database) (st : Statement) : Prop :=
  PutsNew db st ∧ ∀ plan ∈ st.plan?, IsFresh db plan

theorem Represents.wellKeyed (h : Represents db l) : l.WellKeyed where
  utxo _ _ hu := (h.utxo_fits hu).1
  account _ _ ha := readAccount_id ((h.account _).trans (congrArg Except.ok ha))
  scope _ _ hs := readScope_id ((h.scope _).trans (congrArg Except.ok hs))
  operation _ _ hop := h.operation_keyed hop
  intent _ _ hi := h.intent_keyed hi

/-- The plan keeps outputs consistent. -/
def keepsConsistent (l : Ledger) (plan : ReconcilePlan) : Prop :=
  l.Consistent → ∀ o, ((plan.actionsOn o).foldl Cell.act (l.cell o)).Consistent

theorem freshPlans_enforces : Enforces FreshPlans keepsConsistent anyReplaced := by
  refine .of_putsNew (fun _ _ hst => hst.1) fun db l st h hst plan hplan hconsistent o => ?_
  obtain ⟨utxos, snapshot, hlist, hdistinct, rfl⟩ := hst.2 plan hplan
  obtain ⟨utxos', hlist', hnodup, hmem⟩ := h.listUtxos
  obtain rfl : utxos = utxos' := Except.ok.inj (hlist.symm.trans hlist')
  exact hconsistent.planFor h.wellKeyed hdistinct hnodup hmem o

theorem consistent_racyMove {l' : Ledger} (h : l.Consistent)
    (hmove : Ledger.RacyMove (sharedRules keepsConsistent) anyReplaced l l') : l'.Consistent := by
  cases hmove with
  | move hmove =>
    have hplans : ∀ plan, (sharedRules keepsConsistent).plans l plan →
        ∀ o, ((plan.actionsOn o).foldl Cell.act (l.cell o)).Consistent := fun _ hplan => hplan h
    refine h.move_of_plans (fun l u hu => ?_) hplans hmove
    rw [hu.2]
    exact ⟨fun h => (nomatch h), fun _ => rfl⟩
  | replace _ _ _ cell =>
    intro o
    rw [cell]
    exact h o

/-- A pass that no other client interrupts applies its plan fresh. -/
theorem within_reconcileSnapshot (owner : String) {snapshot : ObservationSnapshot}
    (h : snapshot.Distinct) (db : Database) :
    (methodClient owner (.reconcileSnapshot snapshot)).Within executeStatement FreshPlans db := by
  refine ⟨⟨trivial, fun plan hplan => (nomatch hplan)⟩, ?_⟩
  cases hlist : db.listUtxos with
  | error e =>
    have hread : (executeStatement (.call .listUtxos trivial) db).1 = .error e := hlist
    rw [hread]
    trivial
  | ok utxos =>
    have hread : (executeStatement (.call .listUtxos trivial) db).1 = .ok utxos := hlist
    rw [hread]
    refine ⟨⟨trivial, fun plan hplan => ?_⟩, ?_⟩
    · cases hplan
      exact ⟨utxos, snapshot, hlist, h, rfl⟩
    · generalize (executeStatement _ _).1 = r
      cases r <;> trivial

/-! ### The checker -/

theorem SharedLedger.no_violations (h : SharedLedger db l) (hconsistent : l.Consistent) (step : ℕ)
    (hu : l.utxo o = some u) : utxoViolations step u (l.lock o) = [] := by
  have hagrees := h.attributed.agrees o
  have hu' := hconsistent o u hu
  refine no_utxoViolations step (fun ha => ?_) fun ha => ?_
  · have hbound := hu'.reserved ha
    obtain ⟨b, hb⟩ := Option.isSome_iff_exists.mp hbound
    exact ⟨hbound, Option.isSome_iff_exists.mpr (hagrees.bound u b hu hb)⟩
  · obtain ⟨-, hconfirmed, hunbound, hconflict⟩ :=
      ManagedUtxo.isPolicySpendable_iff.mp (hu'.selectable ha)
    refine ⟨hagrees.unlocked ?_, hunbound, hconflict, hconfirmed⟩
    change (l.utxo o).bind (·.operationBinding) = none
    rw [hu]
    exact hunbound

/-- An operation that is rolled back owns nothing. -/
theorem SharedLedger.not_bound (h : SharedLedger db l) {id : OperationId} {op : PersistedOperation}
    (hop : l.operation id = some op) (hphase : op.phase = .rollingBack) (hu : l.utxo o = some u) :
    u.boundTo id = false := by
  rw [← Bool.not_eq_true, ManagedUtxo.boundTo_iff]
  rintro ⟨b, hb, rfl⟩
  have hbound : (l.cell o).binding = some b := Cell.binding_eq_some_iff.mpr ⟨u, hu, hb⟩
  have hlive := h.attributed.live o b.operationId (.inr ⟨b, hbound, rfl⟩)
  obtain ⟨op', hop', hrolling⟩ := hlive.operation
  rw [hop] at hop'
  cases hop'
  exact hrolling hphase

theorem run_checkUtxos (step : ℕ) {utxos : List ManagedUtxo}
    (h : ∀ u ∈ utxos, ∃ lock, db.getLock u.outpoint = .ok lock ∧ utxoViolations step u lock = []) :
    Program.run exec (checkUtxos step utxos) db = (.ok [], db) := by
  induction utxos with
  | nil => rfl
  | cons u utxos ih =>
    have ih := ih fun v hv => h v (List.mem_cons_of_mem _ hv)
    unfold checkUtxos
    split_ifs
    · obtain ⟨lock, hlock, hnone⟩ := h u List.mem_cons_self
      have hread : Program.run exec (StoreCall.getLock u.outpoint).invoke db = (.ok lock, db) :=
        congrArg (fun r => (r, db)) hlock
      rw [Program.run_bind_ok _ hread, Program.run_bind_ok _ ih, hnone]
      rfl
    · exact ih

theorem run_checkReleased (step : ℕ) {ids : List OperationId} {utxos : List ManagedUtxo}
    (hlist : db.listUtxos = .ok utxos)
    (h : ∀ id ∈ ids, ∃ op, db.readOperation id = .ok (some op) ∧ op.phase = .rollingBack ∧
      ∀ u ∈ utxos, u.boundTo id = false) :
    Program.run exec (checkReleased step ids) db = (.ok [], db) := by
  induction ids with
  | nil => rfl
  | cons id ids ih =>
    have ih := ih fun id' hid => h id' (List.mem_cons_of_mem _ hid)
    obtain ⟨op, hop, hphase, hunbound⟩ := h id List.mem_cons_self
    have hutxos : Program.run exec StoreCall.listUtxos.invoke db = (.ok utxos, db) :=
      congrArg (fun r => (r, db)) hlist
    have hread : Program.run exec (StoreCall.getOperation id).invoke db = (.ok (some op), db) :=
      congrArg (fun r => (r, db)) hop
    unfold checkReleased
    rw [Program.run_bind_ok _ hutxos, Program.run_bind_ok _ hread, Program.run_bind_ok _ ih,
      no_releasedViolations step hphase hunbound]
    rfl

/-- Whatever clients share a database, if each plan is applied to the outputs it was made from, the
checker reports nothing, whichever operations it is told were released at some time before. -/
theorem shared_checked {x y : Shared} (h : SharedRun FreshPlans (Database.empty, []) x)
    (h' : SharedRun FreshPlans x y) {released : List OperationId}
    (hreleased : ∀ id ∈ released, ∃ op, x.1.readOperation id = .ok (some op) ∧
      op.phase = .rollingBack) (step : ℕ) :
    (Program.run exec (check step released) y.1).1 = .ok [] := by
  obtain ⟨l, l', hl, hl', hmoves, hmoves'⟩ := sharedLedger_of_run freshPlans_enforces h h'
  have hall : Ledger.RacyRun (sharedRules keepsConsistent) anyReplaced Ledger.empty l' :=
    hmoves.trans hmoves'
  have hconsistent : l'.Consistent :=
    hall.invariant (fun _ _ hl hm => consistent_racyMove hl hm) .empty
  obtain ⟨utxos, hlist, -, hmem⟩ := hl'.represents.listUtxos
  have hutxos : ∀ u ∈ utxos, ∃ lock, y.1.getLock u.outpoint = .ok lock ∧
      utxoViolations step u lock = [] := by
    intro u hu
    obtain ⟨o, ho⟩ := (hmem u).mp hu
    rw [(hl'.represents.utxo_fits ho).1]
    exact ⟨l'.lock o, hl'.represents.lock o, hl'.no_violations hconsistent step ho⟩
  have hids : ∀ id ∈ released, ∃ op, y.1.readOperation id = .ok (some op) ∧
      op.phase = .rollingBack ∧ ∀ u ∈ utxos, u.boundTo id = false := by
    intro id hid
    obtain ⟨op, hop, hphase⟩ := hreleased id hid
    have hop : l.operation id = some op :=
      Except.ok.inj ((hl.represents.operation.read id).symm.trans hop)
    obtain ⟨op', hop', hforward⟩ := hmoves'.operation_forward hop
    rw [hphase] at hforward
    refine ⟨op', (hl'.represents.operation.read id).trans (congrArg Except.ok hop'),
      hforward.of_rollingBack, fun u hu => ?_⟩
    obtain ⟨o, ho⟩ := (hmem u).mp hu
    exact hl'.not_bound hop' hforward.of_rollingBack ho
  have hread : Program.run exec StoreCall.listUtxos.invoke y.1 = (.ok utxos, y.1) :=
    congrArg (fun r => (r, y.1)) hlist
  unfold check
  rw [Program.run_bind_ok _ hread, Program.run_bind_ok _ (run_checkUtxos step hutxos),
    Program.run_bind_ok _ (run_checkReleased step hlist hids)]
  rfl

namespace Sample

/-- New outputs, and no plan. -/
def Planless (db : Database) (st : Statement) : Prop := PutsNew db st ∧ st.plan? = none

instance (db : Database) (st : Statement) : Decidable (Planless db st) :=
  inferInstanceAs (Decidable (PutsNew db st ∧ st.plan? = none))

theorem freshPlans_of_planless {x y : Shared} (h : SharedRun Planless x y) :
    SharedRun FreshPlans x y :=
  h.mono fun _ _ hst => ⟨hst.1, fun _ hplan => nomatch hst.2.symm.trans hplan⟩

/-- The operation that reserved the output is released. -/
@[irreducible]
def released : Database := afterMethods "owner" attempting registered

theorem released_run : SharedRun FreshPlans (Database.empty, []) (released, []) := by
  have hregistered : SharedRun Planless (Database.empty, []) (registered, []) := by
    unfold registered
    exact sharedRun_afterMethods (by decide +kernel)
  have hattempted : SharedRun Planless (registered, []) (released, []) := by
    unfold released registered
    exact sharedRun_afterMethods (by decide +kernel)
  exact freshPlans_of_planless (hregistered.trans hattempted)

/-- What is observed of the output. -/
def observing (status : ObservedSpendStatus) : ObservationSnapshot :=
  ⟨1, .full, [⟨⟨"aa", 0⟩, accountId, scopeId, 1000, .confirmed 1 1, status⟩]⟩

end Sample

theorem shared_checked_sample : (Program.run exec (check 0 [⟨"send"⟩])
    (afterMethods "owner" [.reconcileSnapshot (Sample.observing .missing)] Sample.released)).1 =
      .ok [] := by
  obtain ⟨op, hop, hphase⟩ := Sample.found (r := Sample.released.readOperation ⟨"send"⟩)
    (p := fun op => op.phase = .rollingBack) (by
      unfold Sample.released Sample.registered
      decide +kernel)
  have hwithin : MethodsWithin FreshPlans "owner"
      [.reconcileSnapshot (Sample.observing .missing)] Sample.released :=
    ⟨within_reconcileSnapshot "owner" (by decide) Sample.released, trivial⟩
  refine shared_checked Sample.released_run (sharedRun_afterMethods hwithin) (fun id hid => ?_) 0
  rw [List.mem_singleton.mp hid]
  exact ⟨op, hop, of_decide_eq_true hphase⟩

/-- A plan that is applied late offers an output that was reserved in between. -/
example :
    let missing := afterMethods "owner" [.reconcileSnapshot (Sample.observing .missing)]
      Sample.registered
    let plan := ReconciliationPlanner.planFor (missing.listUtxos.toOption.getD [])
      (Sample.observing .unspent)
    let reserved := afterMethods "owner" (.reconcileSnapshot (Sample.observing .unspent) ::
      Sample.reserving.drop 3) missing
    ((Program.run exec (check 0 []) (exec (.applyReconciliation plan) reserved).2).1.toOption.map
      (·.map (·.kind))) = some [.selectableWithLock, .selectableWithBinding] := by
  unfold Sample.registered
  decide +kernel

end SqliteStateStore

end Txoscope
