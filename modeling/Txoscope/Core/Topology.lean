import Txoscope.Core.Operation

/-!
# Registered accounts and scopes

The registrations a store has accepted, the latest one first: which record of a scope is current,
and which scopes an account has been given since it was last registered.
-/

namespace Txoscope

/-- A registration of an account or of a scope. -/
inductive Registration where
  | account (id : AccountId)
  | scope (scope : WalletScope)
  deriving DecidableEq

/-- The registrations so far, the latest one first. -/
abbrev Registry := List Registration

namespace Registry

/-- The record of a scope. -/
def scope (id : WalletScopeId) : Registry → Option WalletScope
  | [] => none
  | .account _ :: r => scope id r
  | .scope s :: r => if s.id = id then some s else scope id r

/-- The scopes given to an account since it was last registered. -/
def scopesSince (a : AccountId) : Registry → List WalletScopeId
  | [] => []
  | .account a' :: r => if a' = a then [] else scopesSince a r
  | .scope s :: r => if s.accountId = a then scopesSince a r ++ [s.id] else scopesSince a r

/-- The `i`-th latest registration is the last one of the scope `s`. -/
def LastOf (r : Registry) (i : ℕ) (s : WalletScope) : Prop :=
  r[i]? = some (.scope s) ∧ ∀ j < i, ∀ s', r[j]? = some (.scope s') → s'.id ≠ s.id

/-- No account is registered again after the last registration of a scope it was given there. -/
def Covered (r : Registry) : Prop :=
  ∀ i s, r.LastOf i s → ∀ j < i, r[j]? ≠ some (.account s.accountId)

/-- The scopes of registered accounts only. -/
def Rooted : Registry → Prop
  | [] => True
  | .account _ :: r => Rooted r
  | .scope s :: r => .account s.accountId ∈ r ∧ Rooted r

variable {r : Registry} {id : WalletScopeId} {a : AccountId} {s : WalletScope}

theorem lastOf_account_cons {i : ℕ} :
    LastOf (.account a :: r) i s ↔ ∃ j, i = j + 1 ∧ r.LastOf j s := by
  constructor
  · rintro ⟨hi, hbefore⟩
    cases i with
    | zero => simp at hi
    | succ j =>
      refine ⟨j, rfl, by simpa using hi, fun k hk s' hs' => ?_⟩
      exact hbefore (k + 1) (by omega) s' (by simpa using hs')
  · rintro ⟨j, rfl, hj, hbefore⟩
    refine ⟨by simpa using hj, fun k hk s' hs' => ?_⟩
    cases k with
    | zero => simp at hs'
    | succ k => exact hbefore k (by omega) s' (by simpa using hs')

theorem lastOf_scope_cons {i : ℕ} {s' : WalletScope} :
    LastOf (.scope s' :: r) i s ↔
      (i = 0 ∧ s = s') ∨ ∃ j, i = j + 1 ∧ s'.id ≠ s.id ∧ r.LastOf j s := by
  constructor
  · rintro ⟨hi, hbefore⟩
    cases i with
    | zero =>
      simp only [List.getElem?_cons_zero, Option.some.injEq, Registration.scope.injEq] at hi
      exact .inl ⟨rfl, hi.symm⟩
    | succ j =>
      refine .inr ⟨j, rfl, hbefore 0 (by omega) s' rfl, by simpa using hi, fun k hk s'' hs' => ?_⟩
      exact hbefore (k + 1) (by omega) s'' (by simpa using hs')
  · rintro (⟨rfl, rfl⟩ | ⟨j, rfl, hne, hj, hbefore⟩)
    · exact ⟨rfl, fun k hk => by omega⟩
    · refine ⟨by simpa using hj, fun k hk s'' hs' => ?_⟩
      cases k with
      | zero =>
        simp only [List.getElem?_cons_zero, Option.some.injEq, Registration.scope.injEq] at hs'
        exact hs' ▸ hne
      | succ k => exact hbefore k (by omega) s'' (by simpa using hs')

/-- The record of a scope is the one it was last registered with. -/
theorem scope_eq_some_iff : r.scope id = some s ↔ s.id = id ∧ ∃ i, r.LastOf i s := by
  induction r with
  | nil => simp [scope, LastOf]
  | cons e r ih =>
    cases e with
    | account a =>
      simp only [scope, ih, lastOf_account_cons]
      simp
    | scope s' =>
      simp only [scope, lastOf_scope_cons]
      by_cases hid : s'.id = id
      · rw [if_pos hid]
        constructor
        · intro h
          cases h
          exact ⟨hid, 0, .inl ⟨rfl, rfl⟩⟩
        · rintro ⟨rfl, i, ⟨-, rfl⟩ | ⟨j, -, hne, -⟩⟩
          · rfl
          · exact (hne hid).elim
      · rw [if_neg hid, ih]
        constructor
        · rintro ⟨rfl, i, hi⟩
          exact ⟨rfl, i + 1, .inr ⟨i, rfl, hid, hi⟩⟩
        · rintro ⟨rfl, i, ⟨-, rfl⟩ | ⟨j, -, -, hj⟩⟩
          · exact (hid rfl).elim
          · exact ⟨rfl, j, hj⟩

/-- A scope is listed if it was given to the account after the account's last registration. -/
theorem mem_scopesSince_iff : id ∈ r.scopesSince a ↔
    ∃ (i : ℕ) (s : WalletScope), r[i]? = some (.scope s) ∧ s.id = id ∧ s.accountId = a ∧
      ∀ j < i, r[j]? ≠ some (.account a) := by
  induction r with
  | nil => simp [scopesSince]
  | cons e r ih =>
    have hsucc : ∀ i : ℕ, (∀ j < i + 1, (e :: r)[j]? ≠ some (.account a)) ↔
        e ≠ .account a ∧ ∀ j < i, r[j]? ≠ some (.account a) := by
      intro i
      constructor
      · intro h
        exact ⟨fun he => h 0 (by omega) (congrArg some he), fun j hj => h (j + 1) (by omega)⟩
      · rintro ⟨he, h⟩ j hj
        cases j with
        | zero => exact fun h0 => he (Option.some.inj h0)
        | succ j => exact h j (by omega)
    -- what was given before `e` is still listed unless `e` registers the account again
    have htail : (∃ (i : ℕ) (s : WalletScope), (e :: r)[i + 1]? = some (.scope s) ∧ s.id = id ∧
        s.accountId = a ∧ ∀ j < i + 1, (e :: r)[j]? ≠ some (.account a)) ↔
          e ≠ .account a ∧ id ∈ scopesSince a r := by
      rw [ih]
      constructor
      · rintro ⟨i, s, hi, hid, ha, hbefore⟩
        exact ⟨((hsucc i).mp hbefore).1, i, s, hi, hid, ha, ((hsucc i).mp hbefore).2⟩
      · rintro ⟨he, i, s, hi, hid, ha, hbefore⟩
        exact ⟨i, s, hi, hid, ha, (hsucc i).mpr ⟨he, hbefore⟩⟩
    cases e with
    | account a' =>
      have hlisted : id ∈ scopesSince a (.account a' :: r) ↔
          Registration.account a' ≠ .account a ∧ id ∈ scopesSince a r := by
        simp only [scopesSince]
        by_cases ha : a' = a
        · simp [ha]
        · simp [ha]
      rw [hlisted, ← htail]
      constructor
      · rintro ⟨i, s, h⟩
        exact ⟨i + 1, s, h⟩
      · rintro ⟨i, s, hi, h⟩
        cases i with
        | zero => simp at hi
        | succ i => exact ⟨i, s, hi, h⟩
    | scope s' =>
      have hlisted : id ∈ scopesSince a (.scope s' :: r) ↔
          (s'.accountId = a ∧ s'.id = id) ∨ id ∈ scopesSince a r := by
        simp only [scopesSince]
        by_cases ha : s'.accountId = a
        · simp [ha, or_comm, eq_comm]
        · simp [ha]
      have hkept : id ∈ scopesSince a r ↔
          Registration.scope s' ≠ .account a ∧ id ∈ scopesSince a r := by simp
      rw [hlisted, hkept, ← htail]
      constructor
      · rintro (⟨ha, hid⟩ | ⟨i, s, h⟩)
        · exact ⟨0, s', rfl, hid, ha, fun j hj => by omega⟩
        · exact ⟨i + 1, s, h⟩
      · rintro ⟨i, s, hi, hid, ha, h⟩
        cases i with
        | zero =>
          simp only [List.getElem?_cons_zero, Option.some.injEq, Registration.scope.injEq] at hi
          exact .inl ⟨hi ▸ ha, hi ▸ hid⟩
        | succ i => exact .inr ⟨i, s, hi, hid, ha, h⟩

/-- Every scope is listed with the account of its record exactly when the registry is covered. -/
theorem listed_iff_covered :
    (∀ id s, r.scope id = some s → id ∈ r.scopesSince s.accountId) ↔ r.Covered := by
  constructor
  · intro h i s hlast j hj
    obtain ⟨i', s', hi', hid, ha, hbefore⟩ :=
      mem_scopesSince_iff.mp (h s.id s (scope_eq_some_iff.mpr ⟨rfl, i, hlast⟩))
    -- the position found is not before the last registration of the scope
    have hle : i ≤ i' := by
      by_contra hlt
      exact hlast.2 i' (by omega) s' hi' hid
    exact hbefore j (by omega)
  · intro h id s hs
    obtain ⟨rfl, i, hlast⟩ := scope_eq_some_iff.mp hs
    exact mem_scopesSince_iff.mpr ⟨i, s, hlast.1, rfl, rfl, h i s hlast⟩

/-- The account of a recorded scope is registered. -/
theorem Rooted.account_mem (h : r.Rooted) (hs : r.scope id = some s) :
    .account s.accountId ∈ r := by
  induction r with
  | nil => cases hs
  | cons e r ih =>
    cases e with
    | account a => exact List.mem_cons_of_mem _ (ih h hs)
    | scope s' =>
      unfold scope at hs
      split_ifs at hs with hid
      · cases hs
        exact List.mem_cons_of_mem _ h.1
      · exact List.mem_cons_of_mem _ (ih h.2 hs)

end Registry

end Txoscope
