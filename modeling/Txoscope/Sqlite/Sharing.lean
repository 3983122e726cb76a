import Txoscope.Core.UtxoStatus
import Txoscope.Memory.Faults
import Txoscope.Service.Discipline
import Txoscope.Sqlite.Moves

/-!
# Clients that share a database

Any number of orchestrators and services, each on its own connection, work on one database. Their
statements are interleaved in any order, a client may stop between two statements, and a statement
may fail with a storage error before its transaction is committed, or after. Every such run is a
racy run of the ledger (`sharedRun_moves`).

Even where `persist_intent` replaces an intent that was recorded after its check, every row stays
readable (`shared_readable`), locks and bindings agree with each other and with the records of their
operation (`shared_ownership`), and an output of an operation that was broadcast is never offered
again (`shared_broadcast`). Without that race the intents agree as well (`shared_intents`).
-/

namespace Txoscope

open SqliteCodec Transaction

namespace SqliteStateStore

/-! ## Clients of a connection -/

/-- What the clients of a connection keep to. -/
def statementContract : Contract Statement Statement.Out DomainError OperationId where
  allows := Statement.AllowedTo
  tells
    | .call c _, r => c.shows r
    | .recordIntent _, _ => ∅
    | .writeTick _, _ => ∅
  mono := fun hK st h => by
    cases st with
    | call c hc => exact StoreCall.AllowedTo.mono hK c h
    | recordIntent => trivial
    | writeTick => exact h

theorem oneStep_obeys (c : StoreCall) (hc : c.OneStep) {K : Set OperationId}
    (h : storeContract.allows K c) :
    (oneStep c hc).Obeys statementContract (fun r K' => storeContract.tells c r ⊆ K') K :=
  .invoke h fun _ => Set.subset_union_right

/-- Each call is made of statements that are allowed, and shows what the call shows. -/
theorem connection_obeys (c : StoreCall) (K : Set OperationId) (h : storeContract.allows K c) :
    (connection c).Obeys statementContract (fun r K' => storeContract.tells c r ⊆ K') K := by
  cases c with
  | persistIntent selection =>
    refine .bind (.invoke trivial fun r => ?_)
    cases r with
    | error e => exact Set.empty_subset _
    | ok existing =>
      cases existing with
      | none => exact .invoke trivial fun r => Set.empty_subset _
      | some existing =>
        dsimp only [persistChecked]
        split_ifs <;> exact Set.empty_subset _
  | advanceTick delta =>
    refine .bind (.invoke trivial fun r => ?_)
    cases r with
    | error e => exact Set.empty_subset _
    | ok tick => exact .invoke (saturatingAdd_le _ _) fun r => Set.empty_subset _
  | _ => exact oneStep_obeys _ _ h

/-- Whoever may use the database: a client of a store, with its calls made on a connection. -/
inductive IsDatabaseClient : Connection Unit → Prop where
  | client {p : Client Unit} (h : IsStoreClient p) : IsDatabaseClient (p.translate connection)

theorem IsDatabaseClient.keepsTo {p : Connection Unit} (h : IsDatabaseClient p) :
    p.KeepsTo statementContract ∅ := by
  cases h with
  | client h => exact h.disciplined.translate connection_obeys

/-! ## Runs -/

/-- A statement that may be executed is executed, or fails before or after it takes effect. -/
def Answers (may : Database → Statement → Prop) (db : Database) (st : Statement)
    (r : DomainResult st.Out) (db' : Database) : Prop :=
  may db st ∧ Program.Faulty executeStatement DomainError.IsStorage db st r db'

/-- Any number of clients on one database. -/
abbrev SharedRun (may : Database → Statement → Prop) : Shared → Shared → Prop :=
  Relation.ReflTransGen (Program.Served (Answers may) IsDatabaseClient fun _ _ => False)

/-- An output is only put in as a new one; nothing else is asked of a statement. -/
def PutsNew (db : Database) : Statement → Prop
  | .call (.putUtxo u) _ => db.getUtxo u.outpoint = .ok none ∧
      u = ManagedUtxo.new u.outpoint u.accountId u.scopeId u.valueSats
  | _ => True

/-- As well, `persist_intent` only replaces a pending intent by its own selection. -/
def WithoutRace (db : Database) (st : Statement) : Prop := PutsNew db st ∧ MayRecord db st

theorem SharedRun.mono {may may' : Database → Statement → Prop} {x y : Shared}
    (h : SharedRun may x y) (hmay : ∀ db st, may db st → may' db st) : SharedRun may' x y := by
  refine Relation.ReflTransGen.mono ?_ _ _ h
  intro x y hstep
  exact hstep.mono fun hanswer => ⟨hmay _ _ hanswer.1, hanswer.2⟩

theorem SharedRun.mayRace {x y : Shared} (h : SharedRun WithoutRace x y) :
    SharedRun PutsNew x y := h.mono fun _ _ hst => hst.1

/-- New outputs, and plans as they are asked for. -/
def sharedRules (plans : Ledger → ReconcilePlan → Prop) : Ledger.Rules := ⟨Ledger.putsNew, plans⟩

theorem sharedRules_puts {plans : Ledger → ReconcilePlan → Prop} (l : Ledger) (u : ManagedUtxo)
    (h : (sharedRules plans).puts l u) :
    l.utxo u.outpoint = none ∧ u.operationBinding = none := by
  obtain ⟨hfree, hnew⟩ := h
  exact ⟨hfree, by rw [hnew]; rfl⟩

abbrev anyPlan (_ : Ledger) (_ : ReconcilePlan) : Prop := True

/-- What the ledger allows to be replaced. -/
abbrev anyReplaced (_ : Ledger) (_ : OperationSelection) : Prop := True

/-- What may be executed keeps to the rules of the ledger. -/
def Enforces (may : Database → Statement → Prop) (plans : Ledger → ReconcilePlan → Prop)
    (replaces : Ledger → OperationSelection → Prop) : Prop :=
  ∀ db l st, Represents db l → may db st → st.Within (sharedRules plans) replaces l

theorem putsNew_enforces : Enforces PutsNew anyPlan anyReplaced := by
  intro db l st h hst
  cases st with
  | recordIntent | writeTick => trivial
  | call c hc =>
    cases c with
    | putUtxo u => exact ⟨Except.ok.inj ((h.utxo.read u.outpoint).symm.trans hst.1), hst.2⟩
    | _ => trivial

theorem withoutRace_enforces : Enforces WithoutRace anyPlan Ledger.replacesPending := by
  intro db l st h hst
  cases st with
  | recordIntent selection =>
    intro i hi
    exact hst.2 i ((h.intent _).trans (congrArg Except.ok hi))
  | writeTick => trivial
  | call c hc =>
    cases c with
    | putUtxo u => exact putsNew_enforces db l _ h hst.1
    | _ => trivial

variable {db : Database} {l : Ledger}

/-! ## A sample run -/

/-- Decides whether nothing is managed under an outpoint. -/
def decideUnmanaged : (r : DomainResult (Option ManagedUtxo)) → Decidable (r = .ok none)
  | .ok none => isTrue rfl
  | .ok (some _) => isFalse fun h => (nomatch h)
  | .error _ => isFalse fun h => (nomatch h)

instance (db : Database) : (st : Statement) → Decidable (PutsNew db st)
  | .recordIntent _ | .writeTick _ => isTrue trivial
  | .call c _ =>
    match c with
    | .putUtxo u =>
      have := decideUnmanaged (db.getUtxo u.outpoint)
      inferInstanceAs (Decidable (db.getUtxo u.outpoint = .ok none ∧
        u = ManagedUtxo.new u.outpoint u.accountId u.scopeId u.valueSats))
    | .getAccount _ | .getScope _ | .getUtxo _ | .getLock _ | .getOperation _ | .getIntent _
    | .listUtxos | .listOperations | .listPendingIntents | .currentTick | .putAccount _
    | .putScope _ | .advanceTick _ | .persistIntent _ | .markIntentCommitted _
    | .markIntentFailed _ | .applyBatch _ | .applyReconciliation _ | .releaseSelectedOperation _
    | .releaseOperation _ _ | .completeOperation _ _ => isTrue trivial

/-- Decides what holds of the intent that is read, if there is one. -/
def decideIntent (P : OperationIntent → Prop) [DecidablePred P] :
    (r : DomainResult (Option OperationIntent)) → Decidable (∀ i, r = .ok (some i) → P i)
  | .ok (some i) => decidable_of_iff (P i) (by simp)
  | .ok none => isTrue fun _ h => (nomatch h)
  | .error _ => isTrue fun _ h => (nomatch h)

instance (db : Database) : (st : Statement) → Decidable (MayRecord db st)
  | .recordIntent selection =>
    decideIntent (fun i => i.selection = selection ∧ i.status = .pending)
      (db.getIntent selection.operationId)
  | .call _ _ | .writeTick _ => isTrue trivial

instance (db : Database) (st : Statement) : Decidable (WithoutRace db st) :=
  inferInstanceAs (Decidable (PutsNew db st ∧ MayRecord db st))

/-- A method of an orchestrator as a client of a connection. -/
def methodClient (owner : String) (m : Orchestrator.Method) : Connection Unit :=
  (m.program owner).translate connection

/-- The database after methods that are called one after the other. -/
def afterMethods (owner : String) (ms : List Orchestrator.Method) (db : Database) : Database :=
  ms.foldl (fun db m => (Program.run executeStatement (methodClient owner m) db).2) db

/-- Every statement of these methods may be executed. -/
def MethodsWithin (may : Database → Statement → Prop) (owner : String) :
    List Orchestrator.Method → Database → Prop
  | [], _ => True
  | m :: ms, db => (methodClient owner m).Within executeStatement may db ∧
      MethodsWithin may owner ms (afterMethods owner [m] db)

instance MethodsWithin.decidable (may : Database → Statement → Prop)
    [∀ db st, Decidable (may db st)] (owner : String) :
    (ms : List Orchestrator.Method) → (db : Database) → Decidable (MethodsWithin may owner ms db)
  | [], _ => isTrue trivial
  | m :: ms, db =>
    have := MethodsWithin.decidable may owner ms (afterMethods owner [m] db)
    inferInstanceAs (Decidable ((methodClient owner m).Within executeStatement may db ∧
      MethodsWithin may owner ms (afterMethods owner [m] db)))

theorem sharedRun_afterMethods {may : Database → Statement → Prop} {owner : String}
    {ms : List Orchestrator.Method} {db : Database} (h : MethodsWithin may owner ms db) :
    SharedRun may (db, []) (afterMethods owner ms db, []) := by
  induction ms generalizing db with
  | nil => exact .refl
  | cons m ms ih =>
    refine Relation.ReflTransGen.trans ?_ (ih h.2)
    exact Program.served_within (fun db st hst => ⟨hst, .answered⟩)
      (.client (.orchestrator owner m)) h.1

namespace Sample

def accountId : AccountId := ⟨"account"⟩

def scopeId : WalletScopeId := ⟨"scope"⟩

def capabilities : CapabilitySet := {.btcSpend, .btcReceive}

/-- One account with one scope and one output, which an operation reserves. -/
def reserving : List Orchestrator.Method :=
  [.addAccount ⟨accountId, "account", [], capabilities⟩,
    .addScope ⟨scopeId, accountId, "descriptor", "derivation", capabilities, 0⟩,
    .addUtxo (ManagedUtxo.new ⟨"aa", 0⟩ accountId scopeId 1000),
    .applySelection ⟨⟨"send"⟩, [⟨"aa", 0⟩], scopeId, [⟨⟨"aa", 0⟩, .btcSend⟩], none⟩]

/-- The operation is broadcast. -/
def broadcasting : List Orchestrator.Method :=
  [.completeOperation ⟨"send"⟩ .broadcast [⟨"aa", 0⟩]]

@[irreducible]
def reserved : Database := afterMethods "owner" reserving Database.empty

@[irreducible]
def broadcast : Database := afterMethods "owner" broadcasting reserved

/-- Something is read, and it passes a test. -/
theorem found {α : Type} {r : DomainResult (Option α)} {p : α → Bool}
    (h : (r.toOption.join.any p) = true) : ∃ a, r = .ok (some a) ∧ p a = true := by
  match r, h with
  | .ok (some a), h => exact ⟨a, rfl, h⟩

theorem reserved_run : SharedRun WithoutRace (Database.empty, []) (reserved, []) := by
  unfold reserved
  exact sharedRun_afterMethods (by decide +kernel)

theorem sending_run : SharedRun WithoutRace (reserved, []) (broadcast, []) := by
  unfold broadcast
  exact sharedRun_afterMethods (by decide +kernel)

end Sample

/-! ## A run is a racy run of the ledger -/

section Moves

variable {may : Database → Statement → Prop} {plans : Ledger → ReconcilePlan → Prop}
  {replaces : Ledger → OperationSelection → Prop} (hmay : Enforces may plans replaces)

include hmay

/-- One statement, whatever is answered. -/
theorem answers_moves (h : Represents db l) (hl : l.Attributed) {st : Statement}
    (hallowed : statementContract.allows (recordedIntents db) st) {r : DomainResult st.Out}
    {db' : Database} (hanswer : Answers may db st r db') :
    HoldsMoved (sharedRules plans) replaces l db' ∧
      recordedIntents db ∪ statementContract.tells st r ⊆ recordedIntents db' := by
  have hmanaged : ∀ o, (l.cell o).LockManaged := by
    intro o hlock
    obtain ⟨k, hk⟩ := Option.isSome_iff_exists.mp hlock
    exact Option.isSome_iff_exists.mpr (hl.lock_managed hk)
  have hexecuted : HoldsMoved (sharedRules plans) replaces l (executeStatement st db).2 :=
    executeStatement_moves h hmanaged hallowed (hmay db l st h hanswer.1)
  have hkept : ∀ {db'}, HoldsMoved (sharedRules plans) replaces l db' →
      recordedIntents db ⊆ recordedIntents db' := by
    rintro db' ⟨l', h', hmove⟩ id hid
    obtain ⟨i, hi⟩ := Option.isSome_iff_exists.mp (h.mem_recordedIntents.mp hid)
    obtain ⟨i', hi'⟩ := hmove.intent_recorded hi
    exact h'.mem_recordedIntents.mpr (Option.isSome_iff_exists.mpr ⟨i', hi'⟩)
  have hfailed : ∀ {db' : Database} (e : DomainError),
      HoldsMoved (sharedRules plans) replaces l db' →
      recordedIntents db ∪ statementContract.tells st (.error e) ⊆ recordedIntents db' := by
    intro db' e hmoved
    refine Set.union_subset (hkept hmoved) ?_
    rcases st with ⟨c, hc⟩ | selection | tick
    · cases c <;> exact Set.empty_subset _
    · exact Set.empty_subset _
    · exact Set.empty_subset _
  obtain ⟨-, hfaulty⟩ := hanswer
  cases hfaulty with
  | refused e => exact ⟨.of_eq h rfl, hfailed e (.of_eq h rfl)⟩
  | lost e => exact ⟨hexecuted, hfailed e hexecuted⟩
  | answered =>
    refine ⟨hexecuted, Set.union_subset (hkept hexecuted) ?_⟩
    rcases st with ⟨c, hc⟩ | selection | tick
    · cases c with
      | getIntent id =>
        change StoreCall.shows (.getIntent id) (db.getIntent id) ⊆ recordedIntents db
        cases hi : l.intent id with
        | none =>
          rw [h.intent id, hi]
          exact Set.empty_subset _
        | some i =>
          rw [h.intent id, hi]
          rintro _ rfl
          rw [h.intent_keyed hi]
          exact h.mem_recordedIntents.mpr (by rw [hi]; rfl)
      | listPendingIntents =>
        change StoreCall.shows .listPendingIntents db.listPendingIntents ⊆ recordedIntents db
        obtain ⟨intents, hlist, -, hmem⟩ := h.listPendingIntents
        rw [hlist]
        rintro id ⟨i, hi, rfl⟩
        obtain ⟨⟨id, hid⟩, -⟩ := (hmem i).mp hi
        rw [h.intent_keyed hid]
        exact h.mem_recordedIntents.mpr (by rw [hid]; rfl)
      | _ => exact Set.empty_subset _
    · exact Set.empty_subset _
    · exact Set.empty_subset _

/-- Whatever the clients in flight do, the ledger of the database makes racy moves. -/
theorem sharedRun_moves (h : Represents db l) (hl : l.Attributed)
    {ps : List (Connection Unit)} {y : Shared}
    (hps : ∀ p ∈ ps, p.KeepsTo statementContract (recordedIntents db))
    (hrun : SharedRun may (db, ps) y) :
    (∃ l', Represents y.1 l' ∧ Ledger.RacyRun (sharedRules plans) replaces l l') ∧
      ∀ p ∈ y.2, p.KeepsTo statementContract (recordedIntents y.1) := by
  have hcall : ∀ (db₁ : Database) (st : Statement) (r : DomainResult st.Out) (db₂ : Database),
      (∃ l', Represents db₁ l' ∧ Ledger.RacyRun (sharedRules plans) replaces l l') →
      statementContract.allows (recordedIntents db₁) st → Answers may db₁ st r db₂ →
      (∃ l', Represents db₂ l' ∧ Ledger.RacyRun (sharedRules plans) replaces l l') ∧
        recordedIntents db₁ ∪ statementContract.tells st r ⊆ recordedIntents db₂ := by
    rintro db₁ st r db₂ ⟨l₁, h₁, hrun₁⟩ hallowed hanswer
    have hatt : l₁.Attributed :=
      hrun₁.invariant (fun _ _ hl hm => hm.attributed sharedRules_puts hl) hl
    obtain ⟨⟨l₂, h₂, hmove⟩, hknown⟩ := answers_moves hmay h₁ hatt hallowed hanswer
    exact ⟨⟨l₂, h₂, hrun₁.tail hmove⟩, hknown⟩
  obtain ⟨-, hheld, hflight⟩ := Program.answered_of_served hcall (fun _ _ _ hfalse => hfalse.elim)
    (fun _ => IsDatabaseClient.keepsTo) hrun ⟨l, h, .refl⟩ hps
  exact ⟨hheld, hflight⟩

end Moves

/-! ## What every run keeps -/

/-- The ledger of a database that clients share. -/
structure SharedLedger (db : Database) (l : Ledger) : Prop where
  represents : Represents db l
  attributed : l.Attributed
  spending : ∀ o, (l.cell o).BroadcastSpending

theorem sharedLedger_empty : SharedLedger Database.empty Ledger.empty :=
  ⟨represents_empty, .empty, fun _ _ _ h => (nomatch h)⟩

theorem SharedLedger.run {may : Database → Statement → Prop}
    {plans : Ledger → ReconcilePlan → Prop} {replaces : Ledger → OperationSelection → Prop}
    (hmay : Enforces may plans replaces) {x y : Shared} (h : SharedLedger x.1 l)
    (hflight : ∀ p ∈ x.2, p.KeepsTo statementContract (recordedIntents x.1))
    (hrun : SharedRun may x y) :
    (∃ l', SharedLedger y.1 l' ∧ Ledger.RacyRun (sharedRules plans) replaces l l') ∧
      ∀ p ∈ y.2, p.KeepsTo statementContract (recordedIntents y.1) := by
  obtain ⟨⟨l', h', hmoves⟩, hflight'⟩ :=
    sharedRun_moves hmay h.represents h.attributed hflight hrun
  refine ⟨⟨l', ⟨h', ?_, ?_⟩, hmoves⟩, hflight'⟩
  · exact hmoves.invariant (fun _ _ hl hm => hm.attributed sharedRules_puts hl) h.attributed
  · exact hmoves.invariant (I := fun l => ∀ o, (l.cell o).BroadcastSpending)
      (fun _ _ hl hm => hm.broadcastSpending (fun l u hu => (sharedRules_puts l u hu).2) hl)
      h.spending

/-- The state of a run that started on an empty database, and what may follow it. -/
theorem sharedLedger_of_run {may : Database → Statement → Prop}
    {plans : Ledger → ReconcilePlan → Prop} {replaces : Ledger → OperationSelection → Prop}
    (hmay : Enforces may plans replaces) {x y : Shared} (h : SharedRun may (Database.empty, []) x)
    (h' : SharedRun may x y) :
    ∃ l l', SharedLedger x.1 l ∧ SharedLedger y.1 l' ∧
      Ledger.RacyRun (sharedRules plans) replaces Ledger.empty l ∧
        Ledger.RacyRun (sharedRules plans) replaces l l' := by
  obtain ⟨⟨l, hl, hmoves⟩, hflight⟩ :=
    SharedLedger.run (x := (Database.empty, [])) hmay sharedLedger_empty (List.forall_mem_nil _) h
  obtain ⟨⟨l', hl', hmoves'⟩, -⟩ := hl.run hmay hflight h'
  exact ⟨l, l', hl, hl', hmoves, hmoves'⟩

/-- Whatever clients share a database, every read of it succeeds: no row is ever written that
cannot be read. -/
theorem shared_readable {x : Shared} (h : SharedRun PutsNew (Database.empty, []) x) {c : StoreCall}
    (hc : c.IsRead) : ∃ a, (exec c x.1).1 = .ok a := by
  obtain ⟨l, -, hl, -⟩ := sharedLedger_of_run putsNew_enforces h .refl
  have hagree := read_refines hl.represents hc
  cases hr : (exec c x.1).1 with
  | ok a => exact ⟨a, rfl⟩
  | error e =>
    rw [hr] at hagree
    cases c <;> first | exact hagree.elim | exact hc.elim

theorem shared_readable_sample :
    ∃ intents, (exec .listPendingIntents Sample.reserved).1 = .ok intents :=
  shared_readable Sample.reserved_run.mayRace (c := .listPendingIntents) trivial

/-! ### Ownership -/

/-- What the records say about an outpoint that is locked by `lock`. -/
structure Holds (db : Database) (o : OutPoint) (lock : OperationLock) (u : ManagedUtxo)
    (b : OperationBinding) (op : PersistedOperation) (i : OperationIntent) : Prop where
  utxo : db.getUtxo o = .ok (some u)
  binding : u.operationBinding = some b
  owner : lock.operationId = b.operationId
  account : lock.accountId = u.accountId
  scope : lock.scopeId = u.scopeId
  operation : db.readOperation b.operationId = .ok (some op)
  phase : op.phase = b.phase
  notRollingBack : op.phase ≠ .rollingBack
  intent : db.getIntent b.operationId = .ok (some i)
  notFailed : i.status ≠ .failed

theorem SharedLedger.holds (h : SharedLedger db l) {o : OutPoint} {k : OperationLock}
    (hk : l.lock o = some k) : ∃ u b op i, Holds db o k u b op i := by
  obtain ⟨u, b, hu, hb, howner, haccount, hscope⟩ := (h.attributed.agrees o).locked k hk
  have hbinding := Cell.binding_eq_some_iff.mpr ⟨u, hu, hb⟩
  obtain ⟨op, hop, hphase⟩ := h.attributed.phase o b hbinding
  obtain ⟨⟨op', hop', hrolling⟩, i, hi, hstatus⟩ :=
    h.attributed.live o b.operationId (.inr ⟨b, hbinding, rfl⟩)
  rw [hop] at hop'
  cases hop'
  exact ⟨u, b, op, i, (h.represents.utxo.read o).trans (congrArg Except.ok hu), hb, howner,
    haccount, hscope, (h.represents.operation.read _).trans (congrArg Except.ok hop), hphase,
    hrolling, (h.represents.intent _).trans (congrArg Except.ok hi), hstatus⟩

/-- Whatever clients share a database, an outpoint is locked exactly when it is managed and bound,
and then the lock, the binding and the operation agree. -/
theorem shared_ownership {x : Shared} (h : SharedRun PutsNew (Database.empty, []) x)
    (o : OutPoint) : ∃ lock utxo, x.1.getLock o = .ok lock ∧ x.1.getUtxo o = .ok utxo ∧
      (lock.isSome = true ↔ ∃ u, utxo = some u ∧ u.operationBinding.isSome = true) ∧
        ∀ k, lock = some k → ∃ u b op i, Holds x.1 o k u b op i := by
  obtain ⟨l, -, hl, -⟩ := sharedLedger_of_run putsNew_enforces h .refl
  refine ⟨l.lock o, l.utxo o, hl.represents.lock o, hl.represents.utxo.read o,
    ⟨fun hlock => ?_, ?_⟩, fun k hk => hl.holds hk⟩
  · obtain ⟨k, hk⟩ := Option.isSome_iff_exists.mp hlock
    obtain ⟨u, b, hu, hb, -⟩ := (hl.attributed.agrees o).locked k hk
    exact ⟨u, hu, Option.isSome_iff_exists.mpr ⟨b, hb⟩⟩
  · rintro ⟨u, hu, hbound⟩
    obtain ⟨b, hb⟩ := Option.isSome_iff_exists.mp hbound
    exact Option.isSome_iff_exists.mpr ((hl.attributed.agrees o).bound u b hu hb)

theorem shared_ownership_sample :
    ∃ k u b op i, Holds Sample.reserved ⟨"aa", 0⟩ k u b op i := by
  obtain ⟨lock, utxo, hlock, -, -, hholds⟩ := shared_ownership Sample.reserved_run.mayRace ⟨"aa", 0⟩
  obtain ⟨k, hk, -⟩ := Sample.found (r := Sample.reserved.getLock ⟨"aa", 0⟩)
    (p := fun _ => true) (by decide +kernel)
  rw [hlock] at hk
  exact ⟨k, hholds k (Except.ok.inj hk)⟩

/-! ### Broadcast operations -/

/-- The output is on its way to the chain, is refused to everybody, and is owned by nobody but
`id`. -/
structure KeptBy (db : Database) (id : OperationId) (o : OutPoint) : Prop where
  onchain : ∃ u, db.getUtxo o = .ok (some u) ∧
    (u.onchainState = .spendingInFlight ∨ u.onchainState = .spent)
  unavailable : ∃ status, (Program.run exec (Orchestrator.utxoStatus o) db).1 = .ok (some status) ∧
    status.unavailableReason.isSome = true
  lock : ∀ k, db.getLock o = .ok (some k) → k.operationId = id
  binding : ∀ u b, db.getUtxo o = .ok (some u) → u.operationBinding = some b → b.operationId = id

theorem Represents.run_utxoStatus (h : Represents db l) {o : OutPoint} {u : ManagedUtxo}
    (hu : l.utxo o = some u) : (Program.run exec (Orchestrator.utxoStatus o) db).1 =
      .ok (some (UtxoStatus.fromRecords u (l.lock o))) := by
  have hutxo : Program.run exec (StoreCall.getUtxo o).invoke db = (.ok (some u), db) :=
    congrArg (fun r => (r, db)) ((h.utxo.read o).trans (congrArg Except.ok hu))
  have hlock : Program.run exec (StoreCall.getLock o).invoke db = (.ok (l.lock o), db) :=
    congrArg (fun r => (r, db)) (h.lock o)
  unfold Orchestrator.utxoStatus
  rw [Program.run_bind_ok _ hutxo]
  dsimp only
  rw [Program.run_bind_ok _ hlock]
  rfl

theorem Represents.keptBy (h : Represents db l) {id : OperationId} {o : OutPoint}
    (hl : Ledger.SpendingBy id (l.cell o)) : KeptBy db id o := by
  obtain ⟨⟨u, hu, hs⟩, howner⟩ := hl
  refine ⟨⟨u, (h.utxo.read o).trans (congrArg Except.ok hu), ?_⟩, ⟨_, h.run_utxoStatus hu, ?_⟩,
    fun k hk => ?_, fun v b hv hb => ?_⟩
  · cases hst : u.onchainState with
    | spendingInFlight => exact .inl rfl
    | spent => exact .inr rfl
    | unknown | unconfirmedIncoming | confirmed =>
      rw [hst] at hs
      cases hs
  · have hrefused : u.canBeLocked (l.lock o).isSome = false := by
      rw [← Bool.not_eq_true, ManagedUtxo.canBeLocked_iff, ManagedUtxo.isPolicySpendable_iff]
      rintro ⟨⟨-, hconfirmed, -⟩, -⟩
      rw [hconfirmed] at hs
      cases hs
    unfold UtxoStatus.fromRecords
    rw [hrefused]
    rfl
  · exact howner _ (.inl ⟨k, Except.ok.inj ((h.lock o).symm.trans hk), rfl⟩)
  · have hv' : l.utxo o = some v := Except.ok.inj ((h.utxo.read o).symm.trans hv)
    exact howner _ (.inr ⟨b, Cell.binding_eq_some_iff.mpr ⟨v, hv', hb⟩, rfl⟩)

/-- Whatever clients share a database, an output bound to an operation that was broadcast stays with
it: it is in flight or spent, refused to everybody and owned by nobody else from then on. -/
theorem shared_broadcast {x y : Shared} (h : SharedRun PutsNew (Database.empty, []) x)
    (h' : SharedRun PutsNew x y) {id : OperationId} {op : PersistedOperation} {o : OutPoint}
    {u : ManagedUtxo} (hop : x.1.readOperation id = .ok (some op))
    (hphase : op.phase = .broadcast ∨ op.phase = .awaitingConfirmation ∨
      op.phase = .awaitingL2Finality)
    (hu : x.1.getUtxo o = .ok (some u)) (hb : u.boundTo id = true) : KeptBy y.1 id o := by
  obtain ⟨l, l', hl, hl', -, hmoves⟩ := sharedLedger_of_run putsNew_enforces h h'
  have hop : l.operation id = some op :=
    Except.ok.inj ((hl.represents.operation.read id).symm.trans hop)
  have hu : l.utxo o = some u := Except.ok.inj ((hl.represents.utxo.read o).symm.trans hu)
  obtain ⟨b, hub, rfl⟩ := ManagedUtxo.boundTo_iff.mp hb
  obtain ⟨op', hop', hsame⟩ :=
    hl.attributed.phase o b (Cell.binding_eq_some_iff.mpr ⟨u, hu, hub⟩)
  rw [hop] at hop'
  cases hop'
  have hstarts : b.phase.startsSpending = true := by
    rw [← hsame]
    rcases hphase with hp | hp | hp <;> rw [hp] <;> rfl
  have hspending := hl.attributed.spendingBy (hl.spending o) hu hub hstarts
  refine hl'.represents.keptBy ?_
  exact hmoves.invariant (I := fun l => Ledger.SpendingBy b.operationId (l.cell o))
    (fun _ _ ho hm => hm.spendingBy (fun l u hu => (sharedRules_puts l u hu).1) ho) hspending

theorem shared_broadcast_sample :
    KeptBy (afterMethods "owner" [.cleanupStaleReservations 0, .releaseOperation ⟨"send"⟩]
      Sample.broadcast) ⟨"send"⟩ ⟨"aa", 0⟩ := by
  obtain ⟨op, hop, hphase⟩ := Sample.found (r := Sample.broadcast.readOperation ⟨"send"⟩)
    (p := fun op => op.phase = .broadcast) (by decide +kernel)
  obtain ⟨u, hu, hb⟩ := Sample.found (r := Sample.broadcast.getUtxo ⟨"aa", 0⟩)
    (p := fun u => u.boundTo ⟨"send"⟩) (by decide +kernel)
  have hsent : SharedRun WithoutRace (Database.empty, []) (Sample.broadcast, []) :=
    Sample.reserved_run.trans Sample.sending_run
  have hwithin : MethodsWithin PutsNew "owner"
      [.cleanupStaleReservations 0, .releaseOperation ⟨"send"⟩] Sample.broadcast := by
    decide +kernel
  exact shared_broadcast hsent.mayRace (sharedRun_afterMethods hwithin) hop
    (.inl (of_decide_eq_true hphase)) hu hb

/-! ### Lifecycles -/

/-- Whatever clients share a database, the phase of an operation only moves forward. -/
theorem shared_phases {x y : Shared} (h : SharedRun PutsNew (Database.empty, []) x)
    (h' : SharedRun PutsNew x y) {id : OperationId} {op : PersistedOperation}
    (hop : x.1.readOperation id = .ok (some op)) :
    ∃ op', y.1.readOperation id = .ok (some op') ∧ op.phase.MovesTo op'.phase := by
  obtain ⟨l, l', hl, hl', -, hmoves⟩ := sharedLedger_of_run putsNew_enforces h h'
  have hop : l.operation id = some op :=
    Except.ok.inj ((hl.represents.operation.read id).symm.trans hop)
  obtain ⟨op', hop', hforward⟩ := hmoves.operation_forward hop
  exact ⟨op', (hl'.represents.operation.read id).trans (congrArg Except.ok hop'), hforward⟩

theorem shared_phases_sample :
    ∃ op', Sample.broadcast.readOperation ⟨"send"⟩ = .ok (some op') ∧
      OperationPhase.selected.MovesTo op'.phase := by
  obtain ⟨op, hop, hphase⟩ := Sample.found (r := Sample.reserved.readOperation ⟨"send"⟩)
    (p := fun op => op.phase = .selected) (by decide +kernel)
  rw [← of_decide_eq_true hphase]
  exact shared_phases Sample.reserved_run.mayRace Sample.sending_run.mayRace hop

/-- As long as no recorded intent is replaced by another selection: an intent keeps its selection
and leaves `Pending` once, an operation past `Selected` has a committed intent, and whatever is
locked is listed by the intent of its owner. -/
theorem shared_intents {x y : Shared} (h : SharedRun WithoutRace (Database.empty, []) x)
    (h' : SharedRun WithoutRace x y) :
    (∀ id i, x.1.getIntent id = .ok (some i) → ∃ i', y.1.getIntent id = .ok (some i') ∧
      i'.selection = i.selection ∧ i.status.MovesTo i'.status) ∧
    (∀ id op, y.1.readOperation id = .ok (some op) → op.phase ≠ .selected →
      op.phase ≠ .rollingBack → ∃ i, y.1.getIntent id = .ok (some i) ∧ i.status = .committed) ∧
    ∀ o k, y.1.getLock o = .ok (some k) → ∃ i, y.1.getIntent k.operationId = .ok (some i) ∧
      o ∈ i.selection.selectedOutpoints := by
  obtain ⟨l, l', hl, hl', hmoves, hmoves'⟩ := sharedLedger_of_run withoutRace_enforces h h'
  have hread : ∀ {id i}, l'.intent id = some i → y.1.getIntent id = .ok (some i) :=
    fun hi => (hl'.represents.intent _).trans (congrArg Except.ok hi)
  have hall : Ledger.RacyRun (sharedRules anyPlan) Ledger.replacesPending Ledger.empty l' :=
    hmoves.trans hmoves'
  have hcommitted : l'.AdvancedCommitted :=
    hall.invariant (fun _ _ hl hm => hm.advancedCommitted hl) .empty
  have howned : l'.Owned :=
    hall.invariant (fun _ _ hl hm => hm.owned sharedRules_puts hl) .empty
  refine ⟨fun id i hi => ?_, fun id op hop hselected hrolling => ?_, fun o k hk => ?_⟩
  · have hi : l.intent id = some i := Except.ok.inj ((hl.represents.intent id).symm.trans hi)
    obtain ⟨i', hi', hforward⟩ := hmoves'.intent_forward hi
    exact ⟨i', hread hi', hforward⟩
  · have hop : l'.operation id = some op :=
      Except.ok.inj ((hl'.represents.operation.read id).symm.trans hop)
    obtain ⟨i, hi, hstatus⟩ := hcommitted id op hop hselected hrolling
    exact ⟨i, hread hi, hstatus⟩
  · have hk : l'.lock o = some k := Except.ok.inj ((hl'.represents.lock o).symm.trans hk)
    obtain ⟨u, b, hu, hb, howner, -⟩ := (howned.agrees o).locked k hk
    obtain ⟨i, hi, -, hlisted⟩ :=
      (howned.backs o b (Cell.binding_eq_some_iff.mpr ⟨u, hu, hb⟩)).intent
    exact ⟨i, howner ▸ hread hi, hlisted⟩

theorem shared_intents_sample :
    ∃ i, Sample.broadcast.getIntent ⟨"send"⟩ = .ok (some i) ∧ i.status = .committed := by
  obtain ⟨op, hop, hphase⟩ := Sample.found (r := Sample.broadcast.readOperation ⟨"send"⟩)
    (p := fun op => op.phase ≠ .selected ∧ op.phase ≠ .rollingBack) (by decide +kernel)
  obtain ⟨hselected, hrolling⟩ := of_decide_eq_true hphase
  exact (shared_intents Sample.reserved_run Sample.sending_run).2.1 _ op hop hselected hrolling

end SqliteStateStore

end Txoscope
