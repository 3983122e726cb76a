import Txoscope.Lib.Simulation
import Txoscope.Memory.Runs
import Txoscope.Sqlite.Backends
import Txoscope.Sqlite.Moves

/-!
# A database in place of the in-memory store

The tables of the in-memory store are iterated over in an order that is not specified. A database
lists everything in the order of its text, and what a client does on it is what the client does in
memory when the tables are iterated over in that order (`runs_in_text_order`): the client may be any
method, or any number of them, and what it calls may depend on all it was answered.
-/

namespace Txoscope

open SqliteStateStore

/-- A listing in the order of the text of its keys, each once. -/
def StoreCall.TextOrdered : (c : StoreCall) → c.Out → Prop
  | listUtxos, l => l.Pairwise fun a b => a.outpoint.display < b.outpoint.display
  | listOperations, l => l.Pairwise fun a b => a.operationId.value < b.operationId.value
  | listPendingIntents, l =>
    l.Pairwise fun a b => a.selection.operationId.value < b.selection.operationId.value
  | releaseOperation _ _, l | completeOperation _ _, l | releaseSelectedOperation _, some l =>
    l.Pairwise fun a b => a.display < b.display
  | _, _ => True

/-- Ordered answers that are the same up to order are the same. -/
theorem StoreCall.SameAnswer.eq {c : StoreCall} {a b : c.Out} (h : c.SameAnswer a b)
    (ha : c.TextOrdered a) (hb : c.TextOrdered b) : a = b := by
  have hordered : ∀ {α : Type} {key : α → String} {l l' : List α}, l.Perm l' →
      l.Pairwise (fun a b => key a < key b) → l'.Pairwise (fun a b => key a < key b) → l = l' :=
    fun hperm hl hl' => hperm.eq_of_pairwise (fun _ _ _ _ hab hba => (lt_asymm hab hba).elim) hl hl'
  cases c with
  | listUtxos | listOperations | listPendingIntents | releaseOperation | completeOperation =>
    exact hordered h ha hb
  | releaseSelectedOperation id =>
    cases a <;> cases b <;>
      first | rfl | exact h.elim | exact congrArg some (hordered h ha hb)
  | getAccount | getScope | getUtxo | getLock | getOperation | getIntent | currentTick
  | persistIntent | putAccount | putScope | putUtxo | advanceTick | markIntentCommitted
  | markIntentFailed | applyBatch | applyReconciliation => exact h

theorem StoreCall.eq_of_sameResult {c : StoreCall} {r r' : DomainResult c.Out}
    (h : c.SameResult r r') (hr : ∀ a, r = .ok a → c.TextOrdered a)
    (hr' : ∀ a, r' = .ok a → c.TextOrdered a) : r = r' := by
  cases r with
  | error e =>
    cases r' with
    | error e' => exact congrArg Except.error h
    | ok b => exact h.elim
  | ok a =>
    cases r' with
    | error e => exact h.elim
    | ok b => exact congrArg Except.ok (StoreCall.SameAnswer.eq h (hr a rfl) (hr' b rfl))

namespace InMemoryStateStore

/-! ## Iterating in the order of the text -/

/-- The same store, iterated over in the order of the text of its keys. -/
def inTextOrder (s : InMemoryStateStore) : InMemoryStateStore :=
  { s with
    utxos := s.utxos.sortKeys (· ≤ ·)
    operations := s.operations.sortKeys (·.value ≤ ·.value)
    intents := s.intents.sortKeys (·.value ≤ ·.value) }

/-- The store when its tables are iterated over in that order. -/
def execInTextOrder : StoreExec InMemoryStateStore := fun c s => exec c s.inTextOrder

variable {s : InMemoryStateStore}

theorem sameContents_inTextOrder (s : InMemoryStateStore) : s.SameContents s.inTextOrder :=
  { SameContents.refl s with
    utxos := Dict.sameContents_sortKeys _ _
    operations := Dict.sameContents_sortKeys _ _
    intents := Dict.sameContents_sortKeys _ _ }

theorem listUtxos_inTextOrder (hk : s.WellKeyed) :
    s.inTextOrder.listUtxos.Pairwise fun a b => a.outpoint.display < b.outpoint.display :=
  Dict.pairwise_sortKeys (f := fun u : ManagedUtxo => u.outpoint.display) Function.injective_id
    (fun _ _ => .rfl) hk.utxo

theorem listOperations_inTextOrder (hk : s.WellKeyed) :
    s.inTextOrder.listOperations.Pairwise fun a b => a.operationId.value < b.operationId.value :=
  Dict.pairwise_sortKeys operationId_injective (fun _ _ => .rfl) hk.operation

theorem listPendingIntents_inTextOrder (hk : s.WellKeyed) :
    s.inTextOrder.listPendingIntents.Pairwise fun a b =>
      a.selection.operationId.value < b.selection.operationId.value :=
  (Dict.pairwise_sortKeys (f := fun i : OperationIntent => i.selection.operationId)
    operationId_injective (fun _ _ => .rfl) hk.intent).filter _

theorem boundOutpoints_inTextOrder (hk : s.WellKeyed) (id : OperationId) :
    ((s.inTextOrder.listUtxos.filter (·.boundTo id)).map (·.outpoint)).Pairwise
      fun a b => a.display < b.display :=
  List.pairwise_map.mpr ((listUtxos_inTextOrder hk).filter _)

/-- What an operation that advances lists are its outpoints. -/
theorem completeOperation_listed {id : OperationId} {phase : OperationPhase} {l : List OutPoint}
    (h : (s.completeOperation id phase).1 = .ok l) :
    l = [] ∨ l = (s.listUtxos.filter (·.boundTo id)).map (·.outpoint) := by
  unfold completeOperation at h
  cases hop : s.operations.get id with
  | none =>
    rw [hop] at h
    cases h
  | some operation =>
    rw [hop] at h
    dsimp only at h
    cases hi : s.intents.get id with
    | none =>
      rw [hi] at h
      cases h
    | some intent =>
      rw [hi] at h
      dsimp only at h
      split_ifs at h
      cases hadvances : operation.validateAdvance phase with
      | error e =>
        rw [hadvances] at h
        cases h
      | ok advances =>
        rw [hadvances] at h
        cases advances with
        | false => exact .inl (Except.ok.inj h).symm
        | true => exact .inr (Except.ok.inj h).symm

/-- What is listed in the order of the text is listed in that order. -/
theorem exec_textOrdered (hk : s.WellKeyed) (c : StoreCall) {a : c.Out}
    (h : (execInTextOrder c s).1 = .ok a) : c.TextOrdered a := by
  cases c with
  | getAccount | getScope | getUtxo | getLock | getOperation | getIntent | currentTick
  | persistIntent | putAccount | putScope | putUtxo | advanceTick | markIntentCommitted
  | markIntentFailed | applyBatch | applyReconciliation => trivial
  | listUtxos =>
    cases h
    exact listUtxos_inTextOrder hk
  | listOperations =>
    cases h
    exact listOperations_inTextOrder hk
  | listPendingIntents =>
    cases h
    exact listPendingIntents_inTextOrder hk
  | releaseOperation id phase =>
    cases h
    exact boundOutpoints_inTextOrder hk id
  | releaseSelectedOperation id =>
    have hreleased := Except.ok.inj h
    unfold releaseSelectedOperation at hreleased
    split_ifs at hreleased <;> subst hreleased
    · trivial
    · exact boundOutpoints_inTextOrder hk id
  | completeOperation id phase =>
    rcases completeOperation_listed h with rfl | rfl
    · exact List.Pairwise.nil
    · exact boundOutpoints_inTextOrder hk id

end InMemoryStateStore

/-! ## Listings of the database -/

namespace SqliteStateStore

open SqliteCodec Transaction

variable {s : InMemoryStateStore} {db : Database}

theorem listUtxos_textOrdered {utxos : List ManagedUtxo} (h : db.listUtxos = .ok utxos) :
    utxos.Pairwise fun a b => a.outpoint.display < b.outpoint.display := by
  refine Table.pairwise_of_forall₂ (fun {a b u v} ha hb hab => ?_) (Table.mapM_eq_ok_iff.mp h)
    (Table.pairwise_select fun _ _ => decide_eq_true_iff)
  rwa [← (UtxoRow.toUtxo_eq_ok_iff.mp ha).outpoint, ← (UtxoRow.toUtxo_eq_ok_iff.mp hb).outpoint]

theorem listOperations_textOrdered {operations : List PersistedOperation}
    (h : db.listOperations = .ok operations) :
    operations.Pairwise fun a b => a.operationId.value < b.operationId.value := by
  refine Table.pairwise_of_forall₂ (fun {a b u v} ha hb hab => ?_) (Table.mapM_eq_ok_iff.mp h)
    (Table.pairwise_select fun _ _ => decide_eq_true_iff)
  rwa [← (OperationRow.toOperation_eq_ok ha).1, ← (OperationRow.toOperation_eq_ok hb).1]

theorem listPendingIntents_textOrdered {intents : List OperationIntent}
    (h : db.listPendingIntents = .ok intents) :
    intents.Pairwise fun a b =>
      a.selection.operationId.value < b.selection.operationId.value := by
  refine Table.pairwise_of_forall₂ (fun {a b u v} ha hb hab => ?_) (Table.mapM_eq_ok_iff.mp h)
    (Table.pairwise_select fun _ _ => decide_eq_true_iff)
  have hu : Represents.rowIntent db a = .ok u := ha
  have hv : Represents.rowIntent db b = .ok v := hb
  rwa [(Represents.rowIntent_eq_ok hu).2, (Represents.rowIntent_eq_ok hv).2]

theorem boundOutpoints_textOrdered {id : OperationId} {outpoints : List OutPoint}
    (h : db.boundOutpoints id = .ok outpoints) :
    outpoints.Pairwise fun a b => a.display < b.display := by
  refine Table.pairwise_of_forall₂ (fun {a b u v} ha hb hab => ?_) (Table.mapM_eq_ok_iff.mp h)
    (Table.pairwise_select fun _ _ => decide_eq_true_iff)
  rwa [← decodeOutpoint_eq_ok_iff.mp ha, ← decodeOutpoint_eq_ok_iff.mp hb]

/-- A release returns the outpoints it found. -/
theorem releaseOperationTx_listed {id : OperationId} {phase : OperationPhase} {db' : Database}
    {outpoints : List OutPoint} (h : releaseOperationTx id phase db = .ok (outpoints, db')) :
    db.boundOutpoints id = .ok outpoints := by
  unfold releaseOperationTx at h
  simp only [← bind_assoc] at h
  exact Transaction.found_of_eq_ok (f := fun db : Database => db.boundOutpoints id) h

theorem releaseSelectedOperation_listed {id : OperationId} {db' : Database}
    {outpoints : List OutPoint}
    (h : releaseSelectedOperation id db = .ok (some outpoints, db')) :
    db.boundOutpoints id = .ok outpoints := by
  obtain ⟨operation, _, hoperation, h⟩ := Transaction.bind_eq_ok h
  obtain ⟨-, rfl⟩ := Transaction.query_eq_ok hoperation
  split_ifs at h
  · cases h
  · obtain ⟨released, _, hreleased, h⟩ := Transaction.bind_eq_ok h
    cases h
    exact releaseOperationTx_listed hreleased

theorem advanceOperationTx_listed {id : OperationId} {phase : OperationPhase} {db' : Database}
    {outpoints : List OutPoint} (h : advanceOperationTx id phase db = .ok (outpoints, db')) :
    db.boundOutpoints id = .ok outpoints := by
  unfold advanceOperationTx at h
  simp only [← bind_assoc] at h
  exact Transaction.found_of_eq_ok (f := fun db : Database => db.boundOutpoints id) h

theorem completeOperation_listed {id : OperationId} {phase : OperationPhase} {db' : Database}
    {outpoints : List OutPoint} (h : completeOperation id phase db = .ok (outpoints, db')) :
    outpoints = [] ∨ db.boundOutpoints id = .ok outpoints := by
  obtain ⟨operation, _, hoperation, h⟩ := Transaction.bind_eq_ok h
  obtain ⟨-, rfl⟩ := Transaction.query_eq_ok hoperation
  cases operation with
  | none => cases h
  | some operation =>
    obtain ⟨header, _, hheader, h⟩ := Transaction.bind_eq_ok h
    obtain ⟨-, rfl⟩ := Transaction.query_eq_ok hheader
    cases header with
    | none => cases h
    | some header =>
      obtain ⟨u, _, hrequire, h⟩ := Transaction.bind_eq_ok h
      obtain ⟨-, rfl⟩ := Transaction.require_eq_ok hrequire
      obtain ⟨advances, _, hadvances, h⟩ := Transaction.bind_eq_ok h
      obtain ⟨-, rfl⟩ := Transaction.value_eq_ok hadvances
      cases advances with
      | false =>
        cases h
        exact .inl rfl
      | true => exact .inr (advanceOperationTx_listed h)

/-- Every listing of a database comes in the order of its text. -/
theorem exec_textOrdered (c : StoreCall) {a : c.Out} (h : (exec c db).1 = .ok a) :
    c.TextOrdered a := by
  cases c with
  | getAccount | getScope | getUtxo | getLock | getOperation | getIntent | currentTick
  | persistIntent | putAccount | putScope | putUtxo | advanceTick | markIntentCommitted
  | markIntentFailed | applyBatch | applyReconciliation => trivial
  | listUtxos => exact listUtxos_textOrdered h
  | listOperations => exact listOperations_textOrdered h
  | listPendingIntents => exact listPendingIntents_textOrdered h
  | releaseOperation id phase =>
    obtain ⟨db', hrun⟩ := Transaction.of_commit_eq_ok h
    exact boundOutpoints_textOrdered (releaseOperationTx_listed hrun)
  | releaseSelectedOperation id =>
    cases a with
    | none => trivial
    | some outpoints =>
      obtain ⟨db', hrun⟩ := Transaction.of_commit_eq_ok h
      exact boundOutpoints_textOrdered (releaseSelectedOperation_listed hrun)
  | completeOperation id phase =>
    obtain ⟨db', hrun⟩ := Transaction.of_commit_eq_ok h
    rcases completeOperation_listed hrun with rfl | hbound
    · exact List.Pairwise.nil
    · exact boundOutpoints_textOrdered hbound

/-! ## Registrations -/

/-- What registrations have the database list as the in-memory store lists it: an account comes with
the scopes that name it, and a scope is new and comes after the scopes of its account. -/
def Joins (db : Database) : StoreCall → Prop
  | .putAccount account => account.scopes = db.accountScopes account.id
  | .putScope scope => db.scopes.find scope.id.value = none ∧
    ∀ row ∈ db.scopes.rows, row.accountId = scope.accountId.value →
      Database.ScopeRow.before (scopeRow scope) row = false
  | _ => True

instance (db : Database) : DecidablePred (Joins db)
  | .putAccount account =>
    inferInstanceAs (Decidable (account.scopes = db.accountScopes account.id))
  | .putScope scope => inferInstanceAs (Decidable (db.scopes.find scope.id.value = none ∧
      ∀ row ∈ db.scopes.rows, row.accountId = scope.accountId.value →
        Database.ScopeRow.before (scopeRow scope) row = false))
  | .getAccount _ | .getScope _ | .getUtxo _ | .getLock _ | .getOperation _ | .getIntent _
  | .listUtxos | .listOperations | .listPendingIntents | .currentTick | .putUtxo _ | .advanceTick _
  | .persistIntent _ | .markIntentCommitted _ | .markIntentFailed _ | .applyBatch _
  | .applyReconciliation _ | .releaseSelectedOperation _ | .releaseOperation _ _
  | .completeOperation _ _ => isTrue trivial

/-- A new scope is listed last, under its account. -/
theorem accountScopes_joined {scope : WalletScope} (hjoins : Joins db (.putScope scope))
    {db' : Database} (hscopes : db'.scopes = db.scopes.replace (scopeRow scope)) (id : AccountId) :
    db'.accountScopes id =
      if id = scope.accountId then db.accountScopes id ++ [scope.id] else db.accountScopes id := by
  obtain ⟨hfresh, hlast⟩ := hjoins
  unfold Database.accountScopes
  rw [hscopes]
  split_ifs with hid
  · subst hid
    have hselected : (db.scopes.replace (scopeRow scope)).select
        (fun row => row.accountId = scope.accountId.value) Database.ScopeRow.before =
          db.scopes.select (fun row => row.accountId = scope.accountId.value)
            Database.ScopeRow.before ++ [scopeRow scope] :=
      Table.select_replace_of_last hfresh (decide_eq_true rfl)
        fun row hrow haccount => hlast row hrow (of_decide_eq_true haccount)
    rw [hselected, List.map_append]
    rfl
  · rw [Table.select_replace_of_not hfresh]
    exact fun h => hid (congrArg AccountId.mk (of_decide_eq_true h)).symm

theorem Represents.exec_putAccount {l : Ledger} (h : Represents db l) {account : Account}
    (hjoins : Joins db (.putAccount account)) :
    (exec (.putAccount account) db).1 = .ok () ∧
      Represents (exec (.putAccount account) db).2 (l.putAccount account) := by
  obtain ⟨db', hrun, h'⟩ := h.putAccount account
  have hcommit : exec (.putAccount account) db = (.ok (), db') := commit_of_ok hrun
  have hscopes : { account with scopes := db.accountScopes account.id } = account :=
    congrArg (fun scopes => { account with scopes }) (Eq.symm hjoins)
  rw [hcommit]
  rw [hscopes] at h'
  exact ⟨rfl, h'⟩

theorem Represents.exec_putScope {l : Ledger} (h : Represents db l) {scope : WalletScope}
    (hjoins : Joins db (.putScope scope)) :
    (exec (.putScope scope) db).1 = (l.putScope scope).1 ∧
      Represents (exec (.putScope scope) db).2 (l.putScope scope).2 := by
  cases hrow : db.accounts.find scope.accountId.value with
  | none =>
    have hcommit : exec (.putScope scope) db = (.error (.accountNotFound scope.accountId), db) :=
      commit_of_error (putScope_of_none hrow)
    have haccount : l.account scope.accountId = none := by
      have hread := h.account scope.accountId
      unfold Database.readAccount at hread
      rw [Table.read_eq_ok_none_iff.mpr hrow] at hread
      exact (Except.ok.inj hread).symm
    unfold Ledger.putScope
    rw [hcommit, haccount]
    exact ⟨rfl, h⟩
  | some row =>
    obtain ⟨db', hrun, hscopes, h'⟩ := h.putScope hrow
    have hcommit : exec (.putScope scope) db = (.ok (), db') := commit_of_ok hrun
    unfold Ledger.putScope
    rw [hcommit]
    cases haccount : l.account scope.accountId with
    | none =>
      have hread := h.account scope.accountId
      rw [haccount] at hread
      rw [Table.read_eq_ok_none_iff.mp hread] at hrow
      cases hrow
    | some account =>
      refine ⟨rfl, ?_⟩
      have hlisted : ∀ {id a}, l.account id = some a → a.scopes = db.accountScopes id :=
        fun ha => readAccount_eq_ok ((h.account _).trans (congrArg Except.ok ha))
      have haccounts : (fun id => (l.account id).map fun a =>
          { a with scopes := db'.accountScopes id }) = Function.update l.account scope.accountId
            (some { account with scopes := account.scopes ++ [scope.id] }) := by
        funext id
        rw [Function.update_apply, accountScopes_joined hjoins hscopes]
        split_ifs with hid
        · rw [hid, haccount, hlisted haccount]
          rfl
        · cases ha : l.account id with
          | none => rfl
          | some a =>
            rw [← hlisted ha]
            rfl
      rw [haccounts] at h'
      exact h'

/-! ## Clients -/

/-- A call whose numbers fit the integer columns, the tick it records included, and that joins if it
is a registration. -/
def Fitting (db : Database) (c : StoreCall) : Prop :=
  Joins db c ∧ c.Fits ∧ (c.RecordsTick → db.readTick.toOption.any (· < i64Max) = true)

instance (db : Database) (c : StoreCall) : Decidable (Fitting db c) :=
  inferInstanceAs (Decidable (_ ∧ _ ∧ (_ → _)))

/-- Both stores hold one ledger, with every locked output managed. -/
structure Mirrors (s : InMemoryStateStore) (db : Database) : Prop where
  keyed : s.WellKeyed
  represents : Represents db s.toLedger
  managed : ∀ o, (s.toLedger.cell o).LockManaged

/-- A call on the database returns what it returns on the ledger, and leaves the ledger it leaves
there, registrations included. -/
theorem Mirrors.refines (h : Mirrors s db) {c : StoreCall} (hc : Fitting db c) :
    c.AgreeResult (exec c db).1 (Ledger.exec c s.toLedger).1 ∧
      Represents (exec c db).2 (Ledger.exec c s.toLedger).2 := by
  obtain ⟨hjoins, hfits, htick⟩ := hc
  by_cases htopology : c.IsTopology
  · cases c with
    | putAccount account =>
      obtain ⟨hresult, h'⟩ := h.represents.exec_putAccount hjoins
      exact ⟨.of_eq hresult, h'⟩
    | putScope scope =>
      obtain ⟨hresult, h'⟩ := h.represents.exec_putScope hjoins
      exact ⟨.of_eq hresult, h'⟩
    | _ => exact htopology.elim
  · refine exec_refines h.represents h.managed htopology hfits fun hrecords => ?_
    have hread := htick hrecords
    rw [h.represents.tick] at hread
    exact of_decide_eq_true hread

/-- A call in memory, in the order of the text, and the call on the database. -/
theorem Mirrors.exec (h : Mirrors s db) {c : StoreCall} (hc : Fitting db c) :
    (InMemoryStateStore.execInTextOrder c s).1 = (exec c db).1 ∧
      Mirrors (InMemoryStateStore.execInTextOrder c s).2 (exec c db).2 := by
  have hsame := s.sameContents_inTextOrder
  have hkeyed := h.keyed.sameContents hsame
  obtain ⟨hmemory, hledger⟩ := InMemoryStateStore.exec_refines hkeyed c
  rw [← hsame.toLedger_eq] at hmemory hledger
  obtain ⟨hsqlite, hrep⟩ := h.refines hc
  refine ⟨?_, hkeyed.exec c, ?_, ?_⟩
  · exact StoreCall.eq_of_sameResult (hmemory.same hsqlite)
      (fun _ hm => InMemoryStateStore.exec_textOrdered h.keyed c hm)
      (fun _ hq => exec_textOrdered c hq)
  · exact hledger ▸ hrep
  · exact hledger ▸ lockManaged_exec h.managed c

/-- Whatever a client does on a database, as long as its numbers fit and its registrations join, it
gets what it gets from an in-memory store whose reads were the same and which iterates over its
tables in the order of their text, and then the reads are the same again. -/
theorem runs_in_text_order {α : Type} (hsame : SameReads s db)
    (hmanaged : ∀ o k, s.getLock o = some k → ∃ u, s.getUtxo o = some u) {p : Client α}
    (hp : p.Within exec Fitting db) :
    (Program.run InMemoryStateStore.execInTextOrder p s).1 = (Program.run exec p db).1 ∧
      SameReads (Program.run InMemoryStateStore.execInTextOrder p s).2
        (Program.run exec p db).2 := by
  have hlocks : ∀ o, (s.toLedger.cell o).LockManaged := by
    intro o hlock
    obtain ⟨k, hk⟩ := Option.isSome_iff_exists.mp hlock
    exact Option.isSome_iff_exists.mpr (hmanaged o k hk)
  have hmirrors : Mirrors s db := ⟨hsame.wellKeyed, hsame.represents, hlocks⟩
  obtain ⟨hresult, h'⟩ :=
    Program.run_simulated (R := Mirrors) (fun _ _ c h hc => h.exec (c := c) hc) hmirrors hp
  exact ⟨hresult, sameReads_of_represents h'.keyed h'.represents⟩

namespace Sample

/-- An account with a scope and two outputs is registered, and the outputs are listed. -/
def listing : Client (List OutPoint) := do
  Orchestrator.addAccount ⟨⟨"account"⟩, "Main", [], {.btcSpend}⟩
  Orchestrator.addScope ⟨⟨"scope"⟩, ⟨"account"⟩, "descriptor", "external", {.btcSpend}, 0⟩
  Orchestrator.addUtxo (ManagedUtxo.new ⟨"bb", 0⟩ ⟨"account"⟩ ⟨"scope"⟩ 1000)
  Orchestrator.addUtxo (ManagedUtxo.new ⟨"aa", 0⟩ ⟨"account"⟩ ⟨"scope"⟩ 1000)
  let utxos ← StoreCall.listUtxos.invoke
  return utxos.map (·.outpoint)

end Sample

theorem runs_in_text_order_sample : (Program.run InMemoryStateStore.execInTextOrder Sample.listing
    InMemoryStateStore.empty).1 = (Program.run exec Sample.listing Database.empty).1 :=
  (runs_in_text_order sameReads_empty (fun _ _ hk => nomatch hk) (by decide +kernel)).1

end SqliteStateStore

end Txoscope
