import Txoscope.Core.Calls
import Txoscope.Core.Lifecycle
import Txoscope.Memory.Refinement

/-!
# Runs of the in-memory store

A `Run` is any sequence of admissible calls; between two calls the store may also iterate over its
tables in another order. `Run.toLedger` makes it a run of the ledger. Any number of orchestrator
clients, interleaved call by call and stopped anywhere, next to clients that apply arbitrary
plans, only make runs (`clients_run`).
-/

namespace Txoscope

namespace InMemoryStateStore

/-! ## Runs -/

/-- Any number of admissible calls. -/
abbrev Run (rules : Ledger.Rules) : InMemoryStateStore → InMemoryStateStore → Prop :=
  Program.Steps exec (fun s c => s.toLedger.Admissible rules c) SameContents

theorem SameContents.refl (s : InMemoryStateStore) : s.SameContents s :=
  ⟨.refl _, .refl _, .refl _, .refl _, .refl _, .refl _, rfl⟩

theorem SameContents.trans {s s' s'' : InMemoryStateStore} (h : s.SameContents s')
    (h' : s'.SameContents s'') : s.SameContents s'' :=
  ⟨h.accounts.trans h'.accounts, h.scopes.trans h'.scopes, h.utxos.trans h'.utxos,
    h.locks.trans h'.locks, h.operations.trans h'.operations, h.intents.trans h'.intents,
    h.tick.trans h'.tick⟩

theorem SameContents.toLedger_eq {s s' : InMemoryStateStore} (h : s.SameContents s') :
    s.toLedger = s'.toLedger := by
  refine Ledger.ext (funext h.accounts) (funext h.scopes) (funext fun o => ?_)
    (funext h.operations) (funext h.intents) h.tick
  exact Cell.ext (h.utxos _) (h.locks _)

theorem WellKeyed.sameContents {s s' : InMemoryStateStore} (h : s.WellKeyed)
    (hs : s.SameContents s') : s'.WellKeyed where
  utxo k u hu := h.utxo k u ((hs.utxos k).trans hu)
  account id a ha := h.account id a ((hs.accounts id).trans ha)
  scope id sc hsc := h.scope id sc ((hs.scopes id).trans hsc)
  operation id op hop := h.operation id op ((hs.operations id).trans hop)
  intent id i hi := h.intent id i ((hs.intents id).trans hi)

variable {rules : Ledger.Rules} {s s' : InMemoryStateStore}

/-- An admissible call is a move of the ledger. -/
theorem exec_move (hk : s.WellKeyed) {c : StoreCall} (h : s.toLedger.Admissible rules c) :
    Ledger.Move rules s.toLedger (exec c s).2.toLedger := by
  rw [(exec_refines hk c).2]
  exact Ledger.exec_move h

theorem Run.toLedger (h : Run rules s s') (hk : s.WellKeyed) :
    s'.WellKeyed ∧ Ledger.Run rules s.toLedger s'.toLedger := by
  induction h with
  | refl => exact ⟨hk, .refl⟩
  | tail _ hstep ih =>
    obtain ⟨hkeyed, hrun⟩ := ih
    cases hstep with
    | call c hc => exact ⟨hkeyed.exec c, hrun.tail (exec_move hkeyed hc)⟩
    | env he => exact ⟨hkeyed.sameContents he, he.toLedger_eq ▸ hrun⟩

theorem Run.wellKeyed (h : Run rules empty s) : s.WellKeyed := (h.toLedger .empty).1

/-- What holds of the empty ledger and is kept by every move holds in every state reached. -/
theorem Run.invariant {I : Ledger → Prop} (h : Run rules empty s) (hempty : I Ledger.empty)
    (hmove : ∀ l l', I l → Ledger.Move rules l l' → I l') : I s.toLedger :=
  (h.toLedger .empty).2.invariant hmove hempty

/-- The same for what only moves of well-keyed ledgers keep. -/
theorem Run.invariant_keyed {I : Ledger → Prop} (h : Run rules empty s) (hempty : I Ledger.empty)
    (hmove : ∀ l l', l.WellKeyed → I l → Ledger.Move rules l l' → I l') : I s.toLedger := by
  induction h with
  | refl => exact hempty
  | tail hrun hstep ih =>
    have hk := Run.wellKeyed hrun
    cases hstep with
    | call c hc => exact hmove _ _ hk.toLedger ih (exec_move hk hc)
    | env he => exact he.toLedger_eq ▸ ih

/-! ## Clients -/

/-- The records are under their own keys, and the intents of `ids` are recorded. -/
def Recorded (ids : List OperationId) (s : InMemoryStateStore) : Prop :=
  s.WellKeyed ∧ ∀ id ∈ ids, (s.getIntent id).isSome = true

/-- What other clients may do between two calls: recorded intents stay recorded. -/
def Interferes (s s' : InMemoryStateStore) : Prop :=
  s.WellKeyed → s'.WellKeyed ∧ ∀ id, (s.getIntent id).isSome = true →
    (s'.getIntent id).isSome = true

theorem Interferes.refl (s : InMemoryStateStore) : Interferes s s := fun h => ⟨h, fun _ h => h⟩

theorem Interferes.trans {s s' s'' : InMemoryStateStore} (h : Interferes s s')
    (h' : Interferes s' s'') : Interferes s s'' := fun hk =>
  ⟨(h' (h hk).1).1, fun id hi => (h' (h hk).1).2 id ((h hk).2 id hi)⟩

theorem Recorded.interferes {ids : List OperationId} (h : Recorded ids s)
    (hs : Interferes s s') : Recorded ids s' :=
  ⟨(hs h.1).1, fun id hid => (hs h.1).2 id (h.2 id hid)⟩

theorem Interferes.exec {c : StoreCall} (h : s.toLedger.Admissible rules c) :
    Interferes s (InMemoryStateStore.exec c s).2 := by
  refine fun hk => ⟨hk.exec c, fun id hi => ?_⟩
  obtain ⟨i, hi⟩ := Option.isSome_iff_exists.mp hi
  obtain ⟨i', hi', -⟩ := (exec_move hk h).intent_forward hi
  exact Option.isSome_iff_exists.mpr ⟨i', hi'⟩

theorem Interferes.env (h : SameContents s s') : Interferes s s' := fun hk =>
  ⟨hk.sameContents h, fun id hi => by
    have heq : s.getIntent id = s'.getIntent id := h.intents id
    rw [← heq]
    exact hi⟩

theorem admissible_of_harmless {c : StoreCall}
    (h : c.Harmless) (l : Ledger) : l.Admissible rules c := by
  cases c <;> first | exact trivial | exact h.elim | exact h

section Clients

variable (rules)

/-- Every call of the client is admissible whatever other clients do, if the intents of `ids` are
recorded when it starts. -/
abbrev Keeps {α : Type} (ids : List OperationId) (p : Client α) : Prop :=
  Program.Keeps exec Interferes (fun s c => s.toLedger.Admissible rules c) (Recorded ids) p

variable {rules}

theorem keeps_invoke {ids : List OperationId} {c : StoreCall}
    (h : ∀ s, Recorded ids s → s.toLedger.Admissible rules c) : Keeps rules ids c.invoke :=
  Program.Keeps.invoke (fun _ _ h hs => h.interferes hs) fun s hs =>
    ⟨h s hs, hs.interferes (.exec (h s hs))⟩

theorem keeps_harmless {α : Type} {ids : List OperationId} {p : Client α}
    (hp : OnlyHarmless p) : Keeps rules ids p := by
  refine Program.Keeps.of_onlyCalls (fun _ _ h hs => h.interferes hs) (fun c s hc hs => ?_) hp
  have hadm : s.toLedger.Admissible rules c := admissible_of_harmless hc _
  exact ⟨hadm, hs.interferes (.exec hadm)⟩

theorem keeps_settles {α : Type} {ids : List OperationId} {p : Client α} (hp : OnlySettles p) :
    Keeps rules ids p :=
  keeps_harmless (OnlySettles.harmless hp)

theorem keeps_commitSelection (owner : String) {selection : OperationSelection}
    {ids : List OperationId} (h : selection.operationId ∈ ids) :
    Keeps rules ids (Orchestrator.commitSelection owner selection) := by
  unfold Orchestrator.commitSelection
  refine .bind (keeps_harmless (.invoke trivial)) fun operation => ?_
  refine .bind (keeps_harmless (OnlyReads.harmless
    (Orchestrator.requireSelected_onlyReads _ _))) fun _ => ?_
  refine .bind (keeps_harmless (OnlyReads.harmless
    (Orchestrator.validateSelection_onlyReads _))) fun _ => ?_
  exact keeps_invoke fun s hs => ⟨rfl, hs.2 _ h⟩

theorem keeps_isPendingLockConflict (id : OperationId) (error : DomainError)
    (ids : List OperationId) :
    Keeps rules ids (Orchestrator.isPendingLockConflict id error) :=
  keeps_harmless (OnlyReads.harmless (Orchestrator.isPendingLockConflict_onlyReads id error))

/-- What `commit_recorded_intent` does with the intent it found. -/
theorem keeps_commitIntent (owner : String) (intent : OperationIntent) :
    Keeps rules [intent.selection.operationId] (match intent.status with
      | .committed => return ()
      | .failed => throw (.intentNotPending intent.selection.operationId)
      | .pending => do
        match ← (Orchestrator.commitSelection owner intent.selection).attempt with
        | .ok () => (StoreCall.markIntentCommitted intent.selection.operationId).invoke
        | .error (.storage reason) => throw (.storage reason)
        | .error err =>
          let conflict ← Orchestrator.isPendingLockConflict intent.selection.operationId err
          if conflict then throw err
          else
            (StoreCall.markIntentFailed intent.selection.operationId).invoke
            throw err) := by
  cases intent.status with
  | committed => exact .pure _
  | failed => exact .throw _
  | pending =>
    refine .bind (.attempt (keeps_commitSelection owner (List.mem_singleton_self _)))
      fun result => ?_
    split
    · exact keeps_invoke fun _ _ => trivial
    · exact .throw _
    · refine .bind (keeps_isPendingLockConflict _ _ _) fun conflict => ?_
      split_ifs
      · exact .throw _
      · exact .bind (keeps_invoke fun _ _ => trivial) fun _ => .throw _

/-- The batch of a recorded intent is only ever applied while its intent is recorded. -/
theorem keeps_commitRecordedIntent (owner : String) (id : OperationId) :
    Keeps rules [] (Orchestrator.commitRecordedIntent owner id) := by
  intro s hs s' hs'
  have hs₁ := hs.interferes hs'
  refine ⟨trivial, ?_⟩
  change Program.Meets exec _ _ _ (Program.bind (.done (.ok (s'.getIntent id))) _) s'
  cases hi : s'.getIntent id with
  | none => exact hs₁
  | some intent =>
    obtain rfl : intent.selection.operationId = id := hs₁.1.intent id intent hi
    have hrec : Recorded [intent.selection.operationId] s' :=
      ⟨hs₁.1, fun id' hid' => by
        rw [List.mem_singleton.mp hid', hi]
        rfl⟩
    exact (keeps_commitIntent owner intent s' hrec).conseq
      fun _ _ h => ⟨h.1, fun _ hm => absurd hm List.not_mem_nil⟩

theorem keeps_prepareOperation (owner : String) (request : SelectionRequest) :
    Keeps rules [] (Orchestrator.prepareOperation owner request) :=
  .bind (keeps_harmless (Orchestrator.preparePendingOperation_onlyHarmless request))
    fun _ => .bind (keeps_commitRecordedIntent owner _) fun _ => .pure _

theorem keeps_applySelection (owner : String) (selection : OperationSelection) :
    Keeps rules [] (Orchestrator.applySelection owner selection) :=
  .bind (keeps_invoke fun _ _ => trivial) fun _ => keeps_commitRecordedIntent owner _

theorem keeps_recoverPass (owner : String) {ids : List OperationId}
    {pending : List OperationIntent} (h : ∀ i ∈ pending, i.selection.operationId ∈ ids)
    (report : RecoveryReport) :
    Keeps rules ids (Orchestrator.recoverPass owner pending report) := by
  induction pending generalizing report with
  | nil => exact .pure _
  | cons intent pending ih =>
    have ih := fun report => ih (fun i hi => h i (List.mem_cons_of_mem _ hi)) report
    unfold Orchestrator.recoverPass
    refine .bind (.attempt (keeps_commitSelection owner
      (h intent List.mem_cons_self))) fun result => ?_
    split
    · exact .bind (keeps_invoke fun _ _ => trivial) fun _ => .bind (ih _) fun _ => .pure _
    · exact .throw _
    · refine .bind (keeps_isPendingLockConflict _ _ _) fun conflict => ?_
      split_ifs
      · exact .bind (ih _) fun _ => .pure _
      · exact .bind (keeps_invoke fun _ _ => trivial) fun _ => .bind (ih _) fun _ => .pure _

theorem keeps_recoverLoop (owner : String) {ids : List OperationId} (rounds : ℕ)
    {pending : List OperationIntent} (hlen : pending.length ≤ rounds)
    (h : ∀ i ∈ pending, i.selection.operationId ∈ ids) (report : RecoveryReport) :
    Keeps rules ids (Orchestrator.recoverLoop owner rounds pending hlen report) := by
  induction rounds generalizing pending report with
  | zero =>
    obtain rfl := List.length_eq_zero_iff.mp (Nat.le_zero.mp hlen)
    exact .pure _
  | succ rounds ih =>
    cases pending with
    | nil => exact .pure _
    | cons intent pending =>
      unfold Orchestrator.recoverLoop
      refine .bind (keeps_recoverPass owner h report) fun pass => ?_
      split_ifs
      · exact ih _ (fun i hi => h i (pass.sublist.subset hi)) _
      · exact .pure _

/-- Every intent a recovery commits was recorded when it was listed. -/
theorem keeps_recoverPendingIntents (owner : String) :
    Keeps rules [] (Orchestrator.recoverPendingIntents owner) := by
  intro s hs s' hs'
  have hs₁ := hs.interferes hs'
  refine ⟨trivial, ?_⟩
  have hrec : Recorded (s'.listPendingIntents.map (·.selection.operationId)) s' := by
    refine ⟨hs₁.1, fun id hid => ?_⟩
    obtain ⟨i, hi, rfl⟩ := List.mem_map.mp hid
    obtain ⟨⟨id, hget⟩, -⟩ := ((enumerates_listPendingIntents hs₁.1).2 i).mp hi
    rw [hs₁.1.intent id i hget]
    exact Option.isSome_iff_exists.mpr ⟨i, hget⟩
  have hloop : Keeps rules _ (Orchestrator.recoverLoop owner _ s'.listPendingIntents _ _) :=
    keeps_recoverLoop owner s'.listPendingIntents.length (Nat.le_refl _)
      (fun i hi => List.mem_map.mpr ⟨i, hi, rfl⟩) ⟨[], []⟩
  exact (hloop s' hrec).conseq fun _ _ h => ⟨h.1, fun _ hm => absurd hm List.not_mem_nil⟩

/-- Every method keeps to admissible calls, whatever other clients do meanwhile. -/
theorem keeps_method (hplans : ∀ l plan, rules.plans l plan) (owner : String)
    (m : Orchestrator.Method)
    (hm : ∀ u, m = .addUtxo u → ∀ l, rules.puts l u) : Keeps rules [] (m.program owner) := by
  have hdrop : ∀ {α : Type} {p : Client α}, Keeps rules [] p →
      Keeps rules [] (do let _ ← p : Client Unit) := fun h => .bind h fun _ => .pure _
  cases m with
  | addAccount | addScope | advanceTick => exact keeps_invoke fun _ _ => trivial
  | addUtxo u => exact keeps_invoke fun s _ => hm u rfl s.toLedger
  | reconcileSnapshot snapshot =>
    refine hdrop (.bind (keeps_harmless (OnlyReads.harmless
      (Orchestrator.plan_onlyReads snapshot))) fun plan => ?_)
    exact .bind (keeps_invoke fun s _ => hplans s.toLedger plan) fun _ => .pure _
  | proposeOperation request =>
    exact hdrop (keeps_harmless
      (OnlyReads.harmless (Orchestrator.proposeOperation_onlyReads request)))
  | preparePendingOperation request =>
    exact hdrop (keeps_harmless
      (Orchestrator.preparePendingOperation_onlyHarmless request))
  | prepareOperation request =>
    exact hdrop (keeps_prepareOperation owner request)
  | applySelection selection =>
    exact keeps_applySelection owner selection
  | persistSelectionIntent selection => exact hdrop (keeps_invoke fun _ _ => trivial)
  | commitRecordedIntent id => exact keeps_commitRecordedIntent owner id
  | failRecordedIntent id =>
    exact keeps_harmless (Orchestrator.failRecordedIntent_onlyHarmless id)
  | recoverPendingIntents => exact hdrop (keeps_recoverPendingIntents owner)
  | cleanupStaleReservations maxAge =>
    exact hdrop (keeps_settles
      (Orchestrator.cleanupStaleReservations_onlySettles maxAge))
  | releaseSelectedOperation id => exact hdrop (keeps_invoke fun _ _ => trivial)
  | releaseOperation id =>
    exact hdrop (keeps_settles (Orchestrator.releaseOperation_onlySettles id))
  | verifyPlannedInputs id outpoints =>
    exact keeps_harmless
      (OnlyReads.harmless (Orchestrator.verifyPlannedInputs_onlyReads id outpoints))
  | completeOperation id phase outpoints =>
    exact hdrop (keeps_settles
      (Orchestrator.completeOperation_onlySettles id phase outpoints))

end Clients

/-- A client of the store: a method of an orchestrator, putting in only outputs the rules let in,
or a client that applies a plan of its own. -/
inductive IsClient (rules : Ledger.Rules) : Client Unit → Prop where
  | method (owner : String) (m : Orchestrator.Method)
      (puts : ∀ u, m = .addUtxo u → ∀ l, rules.puts l u) : IsClient rules (m.program owner)
  | plan (plan : ReconcilePlan) :
      IsClient rules (StoreCall.applyReconciliation plan).invoke

/-- Any number of clients on one store: each step starts a client, executes the next call of one,
drops one between two calls, or changes the order in which the tables are iterated over. -/
abbrev ClientRun (rules : Ledger.Rules) :
    InMemoryStateStore × List (Client Unit) → InMemoryStateStore × List (Client Unit) → Prop :=
  Relation.ReflTransGen (Program.Clients exec (IsClient rules) SameContents)

/-- The clients in flight make admissible calls only, whatever the others do. -/
def InFlight (rules : Ledger.Rules) (x : InMemoryStateStore × List (Client Unit)) : Prop :=
  ∀ p ∈ x.2, p.Meets exec Interferes (fun s c => s.toLedger.Admissible rules c)
    (fun _ _ => True) x.1

/-- Any number of orchestrator clients, in any interleaving and stopped anywhere, make a run. -/
theorem clients_run (hplans : ∀ l plan, rules.plans l plan)
    {x y : InMemoryStateStore × List (Client Unit)} (hk : x.1.WellKeyed) (hx : InFlight rules x)
    (h : ClientRun rules x y) : Run rules x.1 y.1 ∧ y.1.WellKeyed ∧ InFlight rules y := by
  have hclient : ∀ p, IsClient rules p → Keeps rules [] p := by
    intro p hp
    cases hp with
    | method owner m puts => exact keeps_method hplans owner m puts
    | plan plan => exact keeps_invoke fun s _ => hplans s.toLedger plan
  have hmethods : ∀ p, IsClient rules p → ∀ s, s.WellKeyed →
      p.Meets exec Interferes (fun s c => s.toLedger.Admissible rules c) (fun _ _ => True) s :=
    fun p hp s hs =>
      (hclient p hp s ⟨hs, fun _ hm => (List.not_mem_nil hm).elim⟩).conseq fun _ _ _ => trivial
  have hcall : ∀ s c, s.WellKeyed → s.toLedger.Admissible rules c →
      Interferes s (exec c s).2 ∧ (exec c s).2.WellKeyed := fun s c hs hc => ⟨.exec hc, hs.exec c⟩
  exact Program.steps_of_clients Interferes.refl (fun _ _ _ => Interferes.trans) hcall
    (fun s s' hs he => ⟨.env he, hs.sameContents he⟩) hmethods h hk hx

/-- The same for a run that is looked at once on its way. -/
theorem clients_run_empty (hplans : ∀ l plan, rules.plans l plan)
    {x y : InMemoryStateStore × List (Client Unit)} (h : ClientRun rules (empty, []) x)
    (h' : ClientRun rules x y) : Run rules empty x.1 ∧ Run rules x.1 y.1 := by
  have hnone : InFlight rules (empty, []) := List.forall_mem_nil _
  obtain ⟨hrun, hkeyed, hflight⟩ := clients_run hplans .empty hnone h
  exact ⟨hrun, (clients_run hplans hkeyed hflight h').1⟩

/-- The state after methods that are called one after the other. -/
def afterMethods (owner : String) (ms : List Orchestrator.Method) (s : InMemoryStateStore) :
    InMemoryStateStore :=
  ms.foldl (fun s m => (Program.run exec (m.program owner) s).2) s

theorem clientRun_afterMethods (owner : String) {ms : List Orchestrator.Method}
    (hputs : ∀ u, Orchestrator.Method.addUtxo u ∈ ms → ∀ l, rules.puts l u)
    (s : InMemoryStateStore) : ClientRun rules (s, []) (afterMethods owner ms s, []) := by
  induction ms generalizing s with
  | nil => exact .refl
  | cons m ms ih =>
    have hm : IsClient rules (m.program owner) :=
      .method owner m fun u hu => hputs u (hu ▸ List.mem_cons_self)
    exact (Program.clients_method hm s).trans
      (ih (fun u hu => hputs u (List.mem_cons_of_mem _ hu)) _)

end InMemoryStateStore

end Txoscope
