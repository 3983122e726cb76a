import Txoscope.Core.Topology
import Txoscope.Memory.Store
import Txoscope.Service.Facade
import Txoscope.Sqlite.Accounts

/-!
# Accounts and their scopes on both backends

What a sequence of `bootstrap` calls registers (`registrations`), and how each backend answers for
it. SQLite derives the scopes of an account from the scopes; the in-memory store keeps them in the
record of the account, and forgets them when the account is registered again
(`scope_orphaned`). The backends agree exactly when no account is registered again after the last
registration of one of its scopes (`topology_agrees_iff`).
-/

namespace Txoscope

open TxoscopeService

/-! ## What is registered -/

namespace BootstrapConfig

/-- The account as it is registered. -/
def accountOf (account : BootstrapAccountConfig) : Account :=
  ⟨account.id, account.name, [], account.capabilities⟩

/-- The scope as it is registered. -/
def scopeOf (scope : BootstrapScopeConfig) : WalletScope :=
  ⟨scope.id, scope.accountId, scope.descriptorRef, scope.derivationScope, scope.capabilities,
    scope.priority⟩

def registerAccounts : List BootstrapAccountConfig → Registry → Registry
  | [], r => r
  | account :: accounts, r => registerAccounts accounts (.account account.id :: r)

/-- The first scope of an account that is not registered ends the call. -/
def registerScopes : List BootstrapScopeConfig → Registry → Registry
  | [], r => r
  | scope :: scopes, r =>
    if .account scope.accountId ∈ r then registerScopes scopes (.scope (scopeOf scope) :: r) else r

/-- What one call registers. -/
def register (cfg : BootstrapConfig) (r : Registry) : Registry :=
  registerScopes cfg.scopes (registerAccounts cfg.accounts r)

/-- What a sequence of calls registers on an empty store. -/
def registrations (cfgs : List BootstrapConfig) : Registry :=
  cfgs.foldl (fun r cfg => cfg.register r) []

end BootstrapConfig

/-! ## Stores that follow the registrations -/

section Stores

variable {σ : Type} (exec : StoreExec σ)

/-- A sequence of `bootstrap` calls, failing ones included. -/
def bootstraps (cfgs : List BootstrapConfig) (s : σ) : σ :=
  cfgs.foldl (fun s cfg => (Program.run exec (bootstrap cfg) s).2) s

/-- The scopes whose record names the account. -/
def registeredScopes (s : σ) (a : AccountId) : Set WalletScopeId :=
  {id | ∃ scope, (exec (.getScope id) s).1 = .ok (some scope) ∧ scope.accountId = a}

/-- The scopes that belong to the account: the record of the account lists them, and their own
record names it. -/
def scopesOf (s : σ) (a : AccountId) : Set WalletScopeId :=
  {id | (∃ account, (exec (.getAccount a) s).1 = .ok (some account) ∧ id ∈ account.scopes) ∧
    id ∈ registeredScopes exec s a}

/-- The store holds what has been registered. -/
structure Follows (holds : Registry → σ → Prop) : Prop where
  account : ∀ r s account, holds r s → account.scopes = [] →
    (exec (.putAccount account) s).1 = .ok () ∧
      holds (.account account.id :: r) (exec (.putAccount account) s).2
  scope : ∀ r s scope, holds r s → .account scope.accountId ∈ r →
    (exec (.putScope scope) s).1 = .ok () ∧
      holds (.scope scope :: r) (exec (.putScope scope) s).2
  refused : ∀ r s scope, holds r s → .account scope.accountId ∉ r →
    exec (.putScope scope) s = (.error (.accountNotFound scope.accountId), s)

namespace Follows

open BootstrapConfig

variable {exec} {holds : Registry → σ → Prop} (F : Follows exec holds)

include F

theorem addAccounts (accounts : List BootstrapAccountConfig) {r : Registry} {s : σ}
    (h : holds r s) :
    ∃ s', Program.run exec (Program.forEach (fun account => Orchestrator.addAccount
        (accountOf account)) accounts) s = (.ok (), s') ∧
      holds (registerAccounts accounts r) s' := by
  induction accounts generalizing r s with
  | nil => exact ⟨s, rfl, h⟩
  | cons account accounts ih =>
    obtain ⟨hok, hholds⟩ := F.account r s (accountOf account) h rfl
    obtain ⟨s', hrun, hholds'⟩ := ih hholds
    have hfirst : Program.run exec (Orchestrator.addAccount (accountOf account)) s =
        (.ok (), (exec (.putAccount (accountOf account)) s).2) := Prod.ext hok rfl
    refine ⟨s', ?_, hholds'⟩
    rw [Program.run_forEach_cons, Program.run_bind_ok exec hfirst]
    exact hrun

theorem addScopes (scopes : List BootstrapScopeConfig) {r : Registry} {s : σ} (h : holds r s) :
    holds (registerScopes scopes r) (Program.run exec (Program.forEach (fun scope =>
      Orchestrator.addScope (scopeOf scope)) scopes) s).2 := by
  induction scopes generalizing r s with
  | nil => exact h
  | cons scope scopes ih =>
    unfold registerScopes
    rw [Program.run_forEach_cons]
    by_cases hknown : .account scope.accountId ∈ r
    · obtain ⟨hok, hholds⟩ := F.scope r s (scopeOf scope) h hknown
      have hfirst : Program.run exec (Orchestrator.addScope (scopeOf scope)) s =
          (.ok (), (exec (.putScope (scopeOf scope)) s).2) := Prod.ext hok rfl
      rw [if_pos hknown, Program.run_bind_ok exec hfirst]
      exact ih hholds
    · have hrefused : Program.run exec (Orchestrator.addScope (scopeOf scope)) s =
          (.error (.accountNotFound scope.accountId), s) := F.refused r s (scopeOf scope) h hknown
      rw [if_neg hknown, Program.run_bind_error exec hrefused]
      exact h

theorem bootstrap (cfg : BootstrapConfig) {r : Registry} {s : σ} (h : holds r s) :
    holds (cfg.register r) (Program.run exec (TxoscopeService.bootstrap cfg) s).2 := by
  obtain ⟨s', hrun, hholds⟩ := F.addAccounts cfg.accounts h
  have hbody : Program.run exec (TxoscopeService.bootstrap cfg) s =
      Program.run exec (Program.forEach (fun scope => Orchestrator.addScope (scopeOf scope))
        cfg.scopes) s' := Program.run_bind_ok exec hrun
  rw [hbody]
  exact F.addScopes cfg.scopes hholds

theorem bootstraps (cfgs : List BootstrapConfig) {s : σ} (h : holds [] s) :
    holds (registrations cfgs) (Txoscope.bootstraps exec cfgs s) := by
  unfold registrations Txoscope.bootstraps
  generalize ([] : Registry) = r at h ⊢
  induction cfgs generalizing r s with
  | nil => exact h
  | cons cfg cfgs ih => exact ih _ (F.bootstrap cfg h)

end Follows

end Stores

/-! ## The in-memory store -/

namespace InMemoryStateStore

/-- The record of an account lists what it was given since it was last registered. -/
structure OfRegistry (r : Registry) (s : InMemoryStateStore) : Prop where
  rooted : r.Rooted
  account : ∀ a, (s.getAccount a).map (·.scopes) =
    if .account a ∈ r then some (r.scopesSince a) else none
  scope : ∀ id, s.getScope id = r.scope id

theorem ofRegistry_empty : OfRegistry [] empty := ⟨trivial, fun _ => rfl, fun _ => rfl⟩

theorem follows_ofRegistry : Follows exec OfRegistry where
  account r s account h hscopes := by
    refine ⟨rfl, h.rooted, fun a => ?_, h.scope⟩
    show ((s.accounts.set account.id account).get a).map (·.scopes) = _
    rw [Dict.get_set]
    by_cases ha : a = account.id
    · subst ha
      simp [Registry.scopesSince, hscopes]
    · have hold := h.account a
      have hne : ¬ account.id = a := fun heq => ha heq.symm
      simp only [List.mem_cons, Registration.account.injEq, ha, false_or, Registry.scopesSince,
        if_neg hne]
      exact hold
  scope r s scope h hmem := by
    have haccount := h.account scope.accountId
    rw [if_pos hmem] at haccount
    obtain ⟨account, hget, hscopes⟩ := Option.map_eq_some_iff.mp haccount
    have hput : s.putScope scope = (.ok (), { s with
        accounts := s.accounts.set scope.accountId
          { account with scopes := account.scopes ++ [scope.id] }
        scopes := s.scopes.set scope.id scope }.nextTick) := by
      have hread : s.accounts.get scope.accountId = some account := hget
      unfold putScope
      rw [hread]
    show (s.putScope scope).1 = _ ∧ OfRegistry _ (s.putScope scope).2
    rw [hput]
    refine ⟨rfl, ⟨hmem, h.rooted⟩, fun a => ?_, fun id => ?_⟩
    · show ((s.accounts.set scope.accountId _).get a).map (·.scopes) = _
      rw [Dict.get_set]
      by_cases ha : a = scope.accountId
      · subst ha
        simp [Registry.scopesSince, hscopes, hmem]
      · have hold := h.account a
        have hne : ¬ scope.accountId = a := fun heq => ha heq.symm
        simp only [if_neg ha, List.mem_cons, reduceCtorEq, false_or, Registry.scopesSince,
          if_neg hne]
        exact hold
    · show (s.scopes.set scope.id scope).get id = _
      rw [Dict.get_set]
      unfold Registry.scope
      by_cases hid : id = scope.id
      · rw [if_pos hid, if_pos hid.symm]
      · rw [if_neg hid, if_neg fun heq => hid heq.symm]
        exact h.scope id
  refused r s scope h hmem := by
    have haccount := h.account scope.accountId
    rw [if_neg hmem] at haccount
    have hread : s.accounts.get scope.accountId = none := Option.map_eq_none_iff.mp haccount
    show s.putScope scope = _
    unfold putScope
    rw [hread]

variable {r : Registry} {s : InMemoryStateStore} {a : AccountId} {id : WalletScopeId}

theorem OfRegistry.mem_registered (h : OfRegistry r s) :
    id ∈ registeredScopes exec s a ↔ ∃ scope, r.scope id = some scope ∧ scope.accountId = a := by
  constructor
  · rintro ⟨scope, hget, ha⟩
    exact ⟨scope, (h.scope id).symm.trans (Except.ok.inj hget), ha⟩
  · rintro ⟨scope, hget, ha⟩
    exact ⟨scope, congrArg Except.ok ((h.scope id).trans hget), ha⟩

/-- A registered scope belongs to its account if it was given to it since. -/
theorem OfRegistry.mem_scopesOf (h : OfRegistry r s) :
    id ∈ scopesOf exec s a ↔ id ∈ r.scopesSince a ∧ id ∈ registeredScopes exec s a := by
  constructor
  · rintro ⟨⟨account, hget, hid⟩, hregistered⟩
    have hread : s.getAccount a = some account := Except.ok.inj hget
    have haccount := h.account a
    rw [hread] at haccount
    refine ⟨?_, hregistered⟩
    by_cases hmem : .account a ∈ r
    · rw [if_pos hmem] at haccount
      exact Option.some.inj haccount ▸ hid
    · rw [if_neg hmem] at haccount
      cases haccount
  · rintro ⟨hid, hregistered⟩
    obtain ⟨scope, hscope, rfl⟩ := h.mem_registered.mp hregistered
    have haccount := h.account scope.accountId
    rw [if_pos (h.rooted.account_mem hscope)] at haccount
    obtain ⟨account, hget, hscopes⟩ := Option.map_eq_some_iff.mp haccount
    exact ⟨⟨account, congrArg Except.ok hget, hscopes ▸ hid⟩, hregistered⟩

end InMemoryStateStore

/-! ## The SQLite store -/

namespace SqliteStateStore

open SqliteCodec

/-- The tables hold the registered accounts and the last record of each scope. -/
structure OfRegistry (r : Registry) (db : Database) : Prop where
  rooted : r.Rooted
  tick : ∃ n, db.readTick = .ok n
  account : ∀ a : AccountId, (db.accounts.find a.value).isSome ↔ .account a ∈ r
  capabilities : ∀ k row, db.accounts.find k = some row →
    ∃ granted, decodeCapabilities row.capabilities = .ok granted
  scope : ∀ id, db.readScope id = .ok (r.scope id)

theorem ofRegistry_empty : OfRegistry [] Database.empty where
  rooted := trivial
  tick := ⟨0, rfl⟩
  account a := by
    show (none : Option AccountRow).isSome = true ↔ _
    simp
  capabilities k row h := by cases h
  scope id := rfl

theorem follows_ofRegistry : Follows exec OfRegistry where
  account r db account h hscopes := by
    obtain ⟨n, hn⟩ := h.tick
    have hrun : exec (.putAccount account) db = (.ok (), { db with
        accounts := db.accounts.replace (accountRow account)
        tick := Nat.repr (saturatingAdd n 1) }) :=
      Transaction.commit_of_ok (putAccount_of_ok hn account)
    rw [hrun]
    refine ⟨rfl, h.rooted, ⟨_, db.readTick_write (saturatingAdd_le n 1)⟩, fun a => ?_,
      fun k row hrow => ?_, h.scope⟩
    · rw [Table.find_replace]
      by_cases ha : a = account.id
      · subst ha
        simp [accountRow]
      · have hvalue : ¬ a.value = (accountRow account).accountId := fun heq =>
          ha (congrArg AccountId.mk heq)
        simp [hvalue, ha, h.account a]
    · rw [Table.find_replace] at hrow
      split_ifs at hrow with hk
      · cases hrow
        exact ⟨account.capabilities, decodeCapabilities_encodeCapabilities _⟩
      · exact h.capabilities k row hrow
  scope r db scope h hmem := by
    obtain ⟨n, hn⟩ := h.tick
    obtain ⟨row, hrow⟩ := Option.isSome_iff_exists.mp ((h.account scope.accountId).mpr hmem)
    have hrun : exec (.putScope scope) db = (.ok (), { db with
        scopes := db.scopes.replace (scopeRow scope)
        tick := Nat.repr (saturatingAdd n 1) }) :=
      Transaction.commit_of_ok (putScope_of_ok hn hrow)
    rw [hrun]
    refine ⟨rfl, ⟨hmem, h.rooted⟩, ⟨_, db.readTick_write (saturatingAdd_le n 1)⟩,
      fun a => ?_, h.capabilities, fun id => ?_⟩
    · simp [h.account a]
    · have hread := readScope_replace db scope id
      show ({ db with scopes := db.scopes.replace (scopeRow scope) } : Database).readScope id = _
      rw [hread, h.scope id]
      simp only [Registry.scope]
      split_ifs <;> rfl
  refused r db scope h hmem := by
    have hnone : db.accounts.find scope.accountId.value = none := by
      by_contra hsome
      exact hmem ((h.account scope.accountId).mp (Option.isSome_iff_ne_none.mpr hsome))
    exact Transaction.commit_of_error (putScope_of_none hnone)

variable {r : Registry} {db : Database} {a : AccountId} {id : WalletScopeId}

theorem OfRegistry.mem_registered (h : OfRegistry r db) :
    id ∈ registeredScopes exec db a ↔ ∃ scope, r.scope id = some scope ∧ scope.accountId = a := by
  constructor
  · rintro ⟨scope, hget, ha⟩
    have hread : db.readScope id = .ok (some scope) := hget
    rw [h.scope id] at hread
    exact ⟨scope, Except.ok.inj hread, ha⟩
  · rintro ⟨scope, hget, ha⟩
    exact ⟨scope, (h.scope id).trans (congrArg Except.ok hget), ha⟩

/-- Every registered scope belongs to its account. -/
theorem OfRegistry.scopesOf_eq (h : OfRegistry r db) :
    scopesOf exec db a = registeredScopes exec db a := by
  ext id
  constructor
  · rintro ⟨-, hregistered⟩
    exact hregistered
  · intro hregistered
    obtain ⟨scope, hscope, rfl⟩ := h.mem_registered.mp hregistered
    obtain ⟨row, hrow⟩ := Option.isSome_iff_exists.mp
      ((h.account scope.accountId).mpr (h.rooted.account_mem hscope))
    obtain ⟨granted, hdecode⟩ := h.capabilities _ _ hrow
    obtain ⟨account, haccount⟩ := readAccount_of_find hrow hdecode
    have hread : db.readScope id = .ok (some scope) := (h.scope id).trans (congrArg Except.ok hscope)
    obtain ⟨scopeRow, hfind, hnames⟩ := readScope_eq_ok hread
    refine ⟨⟨account, haccount, ?_⟩, hregistered⟩
    rw [readAccount_eq_ok haccount, mem_accountScopes]
    exact ⟨scopeRow, hfind, by rw [hnames]⟩

end SqliteStateStore

/-! ## Both backends -/

/-- The same scopes belong to each account on both backends, and they are the registered scopes
that name it, exactly when no account is registered again after the last registration of a scope
that names it. -/
theorem topology_agrees_iff (cfgs : List BootstrapConfig) :
    (∀ a,
      scopesOf InMemoryStateStore.exec (bootstraps InMemoryStateStore.exec cfgs .empty) a =
        scopesOf SqliteStateStore.exec (bootstraps SqliteStateStore.exec cfgs .empty) a ∧
      scopesOf InMemoryStateStore.exec (bootstraps InMemoryStateStore.exec cfgs .empty) a =
        registeredScopes InMemoryStateStore.exec
          (bootstraps InMemoryStateStore.exec cfgs .empty) a ∧
      scopesOf SqliteStateStore.exec (bootstraps SqliteStateStore.exec cfgs .empty) a =
        registeredScopes SqliteStateStore.exec (bootstraps SqliteStateStore.exec cfgs .empty) a) ↔
      (BootstrapConfig.registrations cfgs).Covered := by
  have hmemory := InMemoryStateStore.follows_ofRegistry.bootstraps cfgs
    InMemoryStateStore.ofRegistry_empty
  have hsqlite := SqliteStateStore.follows_ofRegistry.bootstraps cfgs
    SqliteStateStore.ofRegistry_empty
  rw [← Registry.listed_iff_covered]
  constructor
  · intro h id scope hscope
    obtain ⟨-, hall, -⟩ := h scope.accountId
    have hregistered := hmemory.mem_registered.mpr ⟨scope, hscope, rfl⟩
    rw [← hall] at hregistered
    exact (hmemory.mem_scopesOf.mp hregistered).1
  · intro h a
    have hall : scopesOf InMemoryStateStore.exec
        (bootstraps InMemoryStateStore.exec cfgs .empty) a = registeredScopes
          InMemoryStateStore.exec (bootstraps InMemoryStateStore.exec cfgs .empty) a := by
      ext id
      rw [hmemory.mem_scopesOf]
      refine ⟨fun hid => hid.2, fun hid => ⟨?_, hid⟩⟩
      obtain ⟨scope, hscope, rfl⟩ := hmemory.mem_registered.mp hid
      exact h id scope hscope
    have hsame : registeredScopes InMemoryStateStore.exec
        (bootstraps InMemoryStateStore.exec cfgs .empty) a = registeredScopes
          SqliteStateStore.exec (bootstraps SqliteStateStore.exec cfgs .empty) a := by
      ext id
      rw [hmemory.mem_registered, hsqlite.mem_registered]
    exact ⟨hall.trans (hsame.trans hsqlite.scopesOf_eq.symm), hall, hsqlite.scopesOf_eq⟩

namespace Sample

/-- The account `account` with the scope `scope`. -/
def registering : BootstrapConfig where
  owner := "owner"
  accounts := [⟨⟨"account"⟩, "account", ∅⟩]
  scopes := [⟨⟨"scope"⟩, ⟨"account"⟩, "descriptor", "derivation", ∅, 0⟩]

/-- The account alone, under another name. -/
def renamed : BootstrapConfig where
  owner := "owner"
  accounts := [⟨⟨"account"⟩, "renamed", ∅⟩]
  scopes := []

end Sample

open Sample

/-- The account is registered again: its scope still names it, but the in-memory store no longer
lists it. -/
theorem scope_orphaned :
    ⟨"scope"⟩ ∉ scopesOf InMemoryStateStore.exec
      (bootstraps InMemoryStateStore.exec [registering, renamed] .empty) ⟨"account"⟩ ∧
    ⟨"scope"⟩ ∈ registeredScopes InMemoryStateStore.exec
      (bootstraps InMemoryStateStore.exec [registering, renamed] .empty) ⟨"account"⟩ ∧
    ⟨"scope"⟩ ∈ scopesOf SqliteStateStore.exec
      (bootstraps SqliteStateStore.exec [registering, renamed] .empty) ⟨"account"⟩ := by
  refine ⟨?_, ⟨⟨⟨"scope"⟩, ⟨"account"⟩, "descriptor", "derivation", ∅, 0⟩, rfl, rfl⟩,
    ⟨⟨⟨"account"⟩, "renamed", [⟨"scope"⟩], ∅⟩, rfl, List.mem_cons_self⟩,
    ⟨⟨"scope"⟩, ⟨"account"⟩, "descriptor", "derivation", ∅, 0⟩, rfl, rfl⟩
  rintro ⟨⟨account, hread, hid⟩, -⟩
  cases hread
  exact absurd hid List.not_mem_nil

end Txoscope