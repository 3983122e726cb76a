import Txoscope.Sqlite.Store

/-!
# Accounts and scopes in the database

What `put_account` and `put_scope` write, and how the rows of the scopes are the list of scopes of
an account.
-/

namespace Txoscope

open SqliteCodec Transaction

namespace SqliteStateStore

/-- A write to another table, and the next tick. -/
theorem tick_of_ok {db : Database} {n : ℕ} (h : db.readTick = .ok n) :
    (do let _ ← nextTickTx : Tx Unit) db =
      .ok ((), { db with tick := Nat.repr (saturatingAdd n 1) }) :=
  bind_of_ok (nextTickTx_of_ok h)

/-- The row of a registered account. -/
def accountRow (account : Account) : AccountRow :=
  ⟨account.id.value, account.name, encodeCapabilities account.capabilities⟩

theorem priority_le (priority : UInt32) : priority.toNat ≤ i64Max := toNat_le_i64Max priority

/-- The row of a registered scope. -/
def scopeRow (scope : WalletScope) : ScopeRow where
  scopeId := scope.id.value
  accountId := scope.accountId.value
  descriptorRef := scope.descriptorRef
  derivationScope := scope.derivationScope
  capabilities := encodeCapabilities scope.capabilities
  priority := SqlInteger.ofNat scope.priority.toNat (priority_le scope.priority)

theorem putAccount_of_ok {db : Database} {n : ℕ} (h : db.readTick = .ok n) (account : Account) :
    putAccount account db = .ok ((), { db with
      accounts := db.accounts.replace (accountRow account)
      tick := Nat.repr (saturatingAdd n 1) }) := by
  have htick : ({ db with accounts := db.accounts.replace (accountRow account) } :
    Database).readTick = .ok n := h
  exact tick_of_ok htick

theorem putScope_of_ok {db : Database} {n : ℕ} (h : db.readTick = .ok n) {scope : WalletScope}
    {row : AccountRow} (hrow : db.accounts.find scope.accountId.value = some row) :
    putScope scope db = .ok ((), { db with
      scopes := db.scopes.replace (scopeRow scope)
      tick := Nat.repr (saturatingAdd n 1) }) := by
  have htick : ({ db with scopes := db.scopes.replace (scopeRow scope) } :
    Database).readTick = .ok n := h
  have hquery : query (fun db : Database =>
      (.ok (db.accounts.find scope.accountId.value) : DomainResult (Option AccountRow))) db =
        .ok (some row, db) := query_of_ok (congrArg Except.ok hrow)
  have hpriority : SqlInteger.bind scope.priority.toNat = .ok (scopeRow scope).priority :=
    SqlInteger.bind_of_le (priority_le scope.priority)
  unfold putScope
  rw [bind_of_ok hquery]
  dsimp only
  rw [bind_of_ok (value_of_ok hpriority db)]
  exact tick_of_ok htick

theorem putScope_of_none {db : Database} {scope : WalletScope}
    (hnone : db.accounts.find scope.accountId.value = none) :
    putScope scope db = .error (.accountNotFound scope.accountId) := by
  have hquery : query (fun db : Database =>
      (.ok (db.accounts.find scope.accountId.value) : DomainResult (Option AccountRow))) db =
        .ok (none, db) := query_of_ok (congrArg Except.ok hnone)
  unfold putScope
  rw [bind_of_ok hquery]
  rfl

theorem readScope_replace (db : Database) (scope : WalletScope) (id : WalletScopeId) :
    ({ db with scopes := db.scopes.replace (scopeRow scope) } : Database).readScope id =
      if scope.id = id then .ok (some scope) else db.readScope id := by
  unfold Database.readScope Table.read
  rw [Table.find_replace]
  by_cases hid : scope.id = id
  · subst hid
    have hpriority : SqlInteger.get u32Max 5 (scopeRow scope).priority =
        .ok scope.priority.toNat :=
      SqlInteger.get_ofNat (priority_le scope.priority) (toNat_le_u32Max scope.priority)
    rw [if_pos rfl, if_pos (show scope.id.value = (scopeRow scope).scopeId from rfl)]
    dsimp only
    rw [hpriority]
    simp [scopeRow, bind, Except.bind, pure, Except.pure, Except.map]
  · have hvalue : ¬ id.value = (scopeRow scope).scopeId := fun heq =>
      hid (congrArg WalletScopeId.mk heq.symm)
    rw [if_neg hid, if_neg hvalue]

/-- A listed scope is a row of the account. -/
theorem mem_accountScopes {db : Database} {a : AccountId} {id : WalletScopeId} :
    id ∈ db.accountScopes a ↔
      ∃ row, db.scopes.find id.value = some row ∧ row.accountId = a.value := by
  unfold Database.accountScopes
  rw [List.mem_map]
  constructor
  · rintro ⟨row, hrow, rfl⟩
    obtain ⟨hmem, ha⟩ := Table.mem_select.mp hrow
    exact ⟨row, Table.find_eq_some_iff.mpr ⟨hmem, rfl⟩, of_decide_eq_true ha⟩
  · rintro ⟨row, hfind, ha⟩
    obtain ⟨hmem, hkey⟩ := Table.find_eq_some_iff.mp hfind
    exact ⟨row, Table.mem_select.mpr ⟨hmem, decide_eq_true ha⟩, congrArg WalletScopeId.mk hkey⟩

/-- What is read of a scope says what its row holds. -/
theorem readScope_eq_ok {db : Database} {id : WalletScopeId} {scope : WalletScope}
    (h : db.readScope id = .ok (some scope)) :
    ∃ row, db.scopes.find id.value = some row ∧ scope.accountId = ⟨row.accountId⟩ := by
  obtain ⟨row, hfind, hrow⟩ := Table.read_eq_ok_some_iff.mp h
  obtain ⟨capabilities, -, hrow⟩ := Txoscope.bind_eq_ok.mp hrow
  obtain ⟨priority, -, hrow⟩ := Txoscope.bind_eq_ok.mp hrow
  cases hrow
  exact ⟨row, hfind, rfl⟩

/-- An account is read with the scopes whose rows name it. -/
theorem readAccount_eq_ok {db : Database} {a : AccountId} {account : Account}
    (h : db.readAccount a = .ok (some account)) : account.scopes = db.accountScopes a := by
  obtain ⟨row, -, hrow⟩ := Table.read_eq_ok_some_iff.mp h
  obtain ⟨capabilities, -, hrow⟩ := Txoscope.bind_eq_ok.mp hrow
  cases hrow
  rfl

/-- An account is kept under its own id. -/
theorem readAccount_id {db : Database} {a : AccountId} {account : Account}
    (h : db.readAccount a = .ok (some account)) : account.id = a := by
  obtain ⟨row, hfind, hrow⟩ := Table.read_eq_ok_some_iff.mp h
  obtain ⟨capabilities, -, hrow⟩ := Txoscope.bind_eq_ok.mp hrow
  cases hrow
  exact congrArg AccountId.mk (Table.find_eq_some_iff.mp hfind).2

/-- A scope is kept under its own id. -/
theorem readScope_id {db : Database} {id : WalletScopeId} {scope : WalletScope}
    (h : db.readScope id = .ok (some scope)) : scope.id = id := by
  obtain ⟨row, hfind, hrow⟩ := Table.read_eq_ok_some_iff.mp h
  obtain ⟨capabilities, -, hrow⟩ := Txoscope.bind_eq_ok.mp hrow
  obtain ⟨priority, -, hrow⟩ := Txoscope.bind_eq_ok.mp hrow
  cases hrow
  exact congrArg WalletScopeId.mk (Table.find_eq_some_iff.mp hfind).2

/-- A row with readable capabilities is read. -/
theorem readAccount_of_find {db : Database} {a : AccountId} {row : AccountRow}
    {capabilities : CapabilitySet} (hrow : db.accounts.find a.value = some row)
    (hdecode : decodeCapabilities row.capabilities = .ok capabilities) :
    ∃ account, db.readAccount a = .ok (some account) := by
  refine ⟨⟨⟨row.accountId⟩, row.name, db.accountScopes a, capabilities⟩,
    Table.read_eq_ok_some_iff.mpr ⟨row, hrow, ?_⟩⟩
  exact Txoscope.bind_eq_ok.mpr ⟨capabilities, hdecode, rfl⟩

end SqliteStateStore

end Txoscope
