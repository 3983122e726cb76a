import Mathlib.Logic.Basic

/-!
# Transactions

A `Transaction` works on a state and may fail; `commit` makes its writes permanent, or, when it
fails, rolls the state back.

* `Preserves R`: whenever the transaction succeeds, the states before and after are related by `R`.
* `FailsFrom P`: from every state with `P` the transaction fails.
* `Simulates Q`: from a given state the transaction fails with the error of a specification, or
  succeeds with it, and then `Q` relates what both leave.

Each is closed under the ways transactions are put together.
-/

/-- A computation on a state that is rolled back on an error. -/
abbrev Transaction (σ ε α : Type) := StateT σ (Except ε) α

namespace Transaction

variable {σ ε α β γ : Type}

/-- A query of the state. -/
def query (f : σ → Except ε α) : Transaction σ ε α := fun s => (f s).map fun a => (a, s)

/-- A statement that writes. -/
def execute (f : σ → σ) : Transaction σ ε Unit := fun s => .ok ((), f s)

/-- A computation on values, such as the binding of parameters. -/
def value (r : Except ε α) : Transaction σ ε α := fun s => r.map fun a => (a, s)

/-- A condition that has to hold to go on. -/
def require (p : Prop) [Decidable p] (e : ε) : Transaction σ ε Unit :=
  value (if p then .ok () else .error e)

/-- Runs a transaction to its commit or its rollback. -/
def commit (m : Transaction σ ε α) (s : σ) : Except ε α × σ :=
  match m s with
  | .ok (a, s') => (.ok a, s')
  | .error e => (.error e, s)

theorem of_commit_eq_ok {m : Transaction σ ε α} {s : σ} {a : α} (h : (m.commit s).1 = .ok a) :
    ∃ s', m s = .ok (a, s') := by
  unfold commit at h
  cases hm : m s with
  | error e =>
    rw [hm] at h
    cases h
  | ok p =>
    rw [hm] at h
    cases h
    exact ⟨p.2, rfl⟩

/-! ## Steps that succeed and steps that fail -/

theorem bind_of_ok {m : Transaction σ ε α} {f : α → Transaction σ ε β} {s s' : σ} {a : α}
    (h : m s = .ok (a, s')) : (m >>= f) s = f a s' := by
  change (m s >>= fun p => f p.1 p.2) = f a s'
  rw [h]
  rfl

theorem bind_of_error {m : Transaction σ ε α} {f : α → Transaction σ ε β} {s : σ} {e : ε}
    (h : m s = .error e) : (m >>= f) s = .error e := by
  change (m s >>= fun p => f p.1 p.2) = .error e
  rw [h]
  rfl

theorem bind_eq_ok {m : Transaction σ ε α} {f : α → Transaction σ ε β} {s s' : σ} {b : β}
    (h : (m >>= f) s = .ok (b, s')) : ∃ a s₁, m s = .ok (a, s₁) ∧ f a s₁ = .ok (b, s') := by
  cases hm : m s with
  | error e =>
    rw [bind_of_error hm] at h
    cases h
  | ok p =>
    obtain ⟨a, s₁⟩ := p
    rw [bind_of_ok hm] at h
    exact ⟨a, s₁, rfl, h⟩

theorem query_of_ok {f : σ → Except ε α} {s : σ} {a : α} (h : f s = .ok a) :
    query f s = .ok (a, s) := by
  unfold query
  rw [h]
  rfl

theorem query_of_error {f : σ → Except ε α} {s : σ} {e : ε} (h : f s = .error e) :
    query f s = .error e := by
  unfold query
  rw [h]
  rfl

theorem query_eq_ok {f : σ → Except ε α} {s s' : σ} {a : α} (h : query f s = .ok (a, s')) :
    f s = .ok a ∧ s = s' := by
  cases hf : f s with
  | error e =>
    rw [query_of_error hf] at h
    cases h
  | ok b =>
    rw [query_of_ok hf] at h
    cases h
    exact ⟨rfl, rfl⟩

/-- A transaction that ends by returning what it first found. -/
theorem found_of_eq_ok {f : σ → Except ε α} {body : α → Transaction σ ε Unit} {s s' : σ} {a : α}
    (h : (query f >>= fun found => body found >>= fun _ => pure found) s = .ok (a, s')) :
    f s = .ok a := by
  obtain ⟨found, s₁, hfound, h⟩ := bind_eq_ok h
  obtain ⟨-, s₂, -, h⟩ := bind_eq_ok h
  cases h
  exact (query_eq_ok hfound).1

theorem value_of_ok {r : Except ε α} {a : α} (h : r = .ok a) (s : σ) :
    value r s = .ok (a, s) := by
  subst h
  rfl

theorem value_eq_ok {r : Except ε α} {s s' : σ} {a : α} (h : value r s = .ok (a, s')) :
    r = .ok a ∧ s = s' := query_eq_ok (f := fun _ => r) h

theorem require_of_pos {p : Prop} [Decidable p] (h : p) (e : ε) (s : σ) :
    require p e s = .ok ((), s) := value_of_ok (if_pos h) s

theorem require_of_neg {p : Prop} [Decidable p] (h : ¬ p) (e : ε) (s : σ) :
    require p e s = .error e := query_of_error (f := fun _ => if p then .ok () else .error e) (if_neg h)

theorem require_eq_ok {p : Prop} [Decidable p] {e : ε} {s s' : σ} {u : Unit}
    (h : require p e s = .ok (u, s')) : p ∧ s = s' := by
  by_cases hp : p
  · rw [require_of_pos hp] at h
    cases h
    exact ⟨hp, rfl⟩
  · rw [require_of_neg hp] at h
    cases h

theorem commit_of_ok {m : Transaction σ ε α} {s s' : σ} {a : α} (h : m s = .ok (a, s')) :
    m.commit s = (.ok a, s') := by
  unfold commit
  rw [h]

theorem commit_of_error {m : Transaction σ ε α} {s : σ} {e : ε} (h : m s = .error e) :
    m.commit s = (.error e, s) := by
  unfold commit
  rw [h]

/-! ## Preserved relations -/

/-- A transaction that succeeds moves the state by `R`. -/
def Preserves (R : σ → σ → Prop) (m : Transaction σ ε α) : Prop :=
  ∀ s a s', m s = .ok (a, s') → R s s'

namespace Preserves

variable {R : σ → σ → Prop}

theorem mono {R' : σ → σ → Prop} (hR : ∀ s s', R s s' → R' s s') {m : Transaction σ ε α}
    (h : m.Preserves R) : m.Preserves R' := fun s a s' hrun => hR s s' (h s a s' hrun)

theorem query (hrefl : ∀ s, R s s) (f : σ → Except ε α) :
    (Transaction.query f).Preserves R := by
  intro s a s' h
  obtain ⟨-, rfl⟩ := query_eq_ok h
  exact hrefl _

theorem value (hrefl : ∀ s, R s s) (r : Except ε α) :
    (Transaction.value r : Transaction σ ε α).Preserves R :=
  query hrefl fun _ => r

theorem require (hrefl : ∀ s, R s s) (p : Prop) [Decidable p] (e : ε) :
    (Transaction.require p e : Transaction σ ε Unit).Preserves R := value hrefl _

theorem execute {f : σ → σ} (h : ∀ s, R s (f s)) :
    (Transaction.execute f : Transaction σ ε Unit).Preserves R := by
  intro s a s' hrun
  cases hrun
  exact h s

theorem pure (hrefl : ∀ s, R s s) (a : α) :
    (Pure.pure a : Transaction σ ε α).Preserves R := by
  intro s b s' h
  cases h
  exact hrefl s

theorem throw (e : ε) : (throw e : Transaction σ ε α).Preserves R := by
  intro s a s' h
  cases h

theorem bind (htrans : ∀ s s' s'', R s s' → R s' s'' → R s s'') {m : Transaction σ ε α}
    {f : α → Transaction σ ε β} (hm : m.Preserves R) (hf : ∀ a, (f a).Preserves R) :
    (m >>= f).Preserves R := by
  intro s b s'' h
  obtain ⟨a, s', hfirst, hsecond⟩ := bind_eq_ok h
  exact htrans s s' s'' (hm s a s' hfirst) (hf a s' b s'' hsecond)

theorem forM (hrefl : ∀ s, R s s) (htrans : ∀ s s' s'', R s s' → R s' s'' → R s s'')
    {f : β → Transaction σ ε PUnit} (hf : ∀ b, (f b).Preserves R) (bs : List β) :
    (bs.forM f).Preserves R := by
  induction bs with
  | nil => exact pure hrefl _
  | cons b bs ih => exact bind htrans (hf b) fun _ => ih

theorem commit (hrefl : ∀ s, R s s) {m : Transaction σ ε α} (h : m.Preserves R) (s : σ) :
    R s (m.commit s).2 := by
  cases hm : m s with
  | error e =>
    rw [commit_of_error hm]
    exact hrefl s
  | ok p =>
    rw [commit_of_ok hm]
    exact h s p.1 p.2 hm

end Preserves

/-! ## Transactions that fail -/

/-- From every state with `P`, the transaction fails. -/
def FailsFrom (P : σ → Prop) (m : Transaction σ ε α) : Prop := ∀ s, P s → ∃ e, m s = .error e

namespace FailsFrom

variable {P : σ → Prop} {m : Transaction σ ε α} {f : α → Transaction σ ε β}

/-- The first part may fail; if it does not, it keeps `P` and the second part fails. -/
theorem bind (hm : m.Preserves fun s s' => P s → P s') (hf : ∀ a, (f a).FailsFrom P) :
    (m >>= f).FailsFrom P := by
  intro s hs
  cases hrun : m s with
  | error e => exact ⟨e, bind_of_error hrun⟩
  | ok p =>
    obtain ⟨e, he⟩ := hf p.1 p.2 (hm s p.1 p.2 hrun hs)
    exact ⟨e, (bind_of_ok hrun).trans he⟩

/-- The first part fails. -/
theorem bind_left (hm : m.FailsFrom P) : (m >>= f).FailsFrom P := by
  intro s hs
  obtain ⟨e, he⟩ := hm s hs
  exact ⟨e, bind_of_error he⟩

theorem value {r : Except ε α} (h : ∃ e, r = .error e) :
    (Transaction.value r : Transaction σ ε α).FailsFrom P := by
  intro s _
  obtain ⟨e, he⟩ := h
  exact ⟨e, query_of_error (f := fun _ => r) he⟩

theorem commit (hm : m.FailsFrom P) {s : σ} (hs : P s) : (m.commit s).2 = s := by
  obtain ⟨e, he⟩ := hm s hs
  rw [commit_of_error he]

end FailsFrom

/-! ## Specifications -/

/-- The transaction fails as the specification does, or succeeds as it does, and `Q` relates what
both leave. -/
def Simulates (Q : α → σ → β → Prop) (m : Transaction σ ε α) (s : σ) (r : Except ε β) : Prop :=
  match m s, r with
  | .ok (a, s'), .ok b => Q a s' b
  | .error e, .error e' => e = e'
  | _, _ => False

namespace Simulates

variable {Q : α → σ → β → Prop} {m : Transaction σ ε α} {s : σ}

theorem of_ok {s' : σ} {a : α} {b : β} (h : m s = .ok (a, s')) (hQ : Q a s' b) :
    m.Simulates Q s (.ok b) := by
  unfold Simulates
  rw [h]
  exact hQ

theorem of_error {e : ε} (h : m s = .error e) :
    m.Simulates Q s (.error e : Except ε β) := by
  unfold Simulates
  rw [h]

theorem ok_inv {b : β} (h : m.Simulates Q s (.ok b)) : ∃ a s', m s = .ok (a, s') ∧ Q a s' b := by
  unfold Simulates at h
  cases hm : m s with
  | error e =>
    rw [hm] at h
    exact h.elim
  | ok p =>
    rw [hm] at h
    exact ⟨p.1, p.2, rfl, h⟩

theorem error_inv {e : ε} (h : m.Simulates Q s (.error e : Except ε β)) : m s = .error e := by
  unfold Simulates at h
  cases hm : m s with
  | error e' =>
    rw [hm] at h
    exact congrArg Except.error h
  | ok p =>
    rw [hm] at h
    exact h.elim

theorem query {f : σ → Except ε α} {r : Except ε α} (h : f s = r) :
    (Transaction.query f).Simulates (fun a s' b => a = b ∧ s' = s) s r := by
  subst h
  cases hf : f s with
  | error e => exact of_error (query_of_error hf)
  | ok a => exact of_ok (query_of_ok hf) ⟨rfl, rfl⟩

/-- The first part has been executed. -/
theorem after {f : α → Transaction σ ε γ} {Q : γ → σ → β → Prop} {s' : σ} {a : α} {r : Except ε β}
    (hm : m s = .ok (a, s')) (h : (f a).Simulates Q s' r) : (m >>= f).Simulates Q s r := by
  unfold Simulates
  rw [bind_of_ok hm]
  exact h

/-- Sequencing: the second parts are compared from what the first ones leave. -/
theorem bind {δ : Type} {Q' : γ → σ → δ → Prop} {f : α → Transaction σ ε γ} {r : Except ε β}
    {g : β → Except ε δ} (hm : m.Simulates Q s r)
    (hf : ∀ a s' b, r = .ok b → Q a s' b → (f a).Simulates Q' s' (g b)) :
    (m >>= f).Simulates Q' s (r >>= g) := by
  cases r with
  | error e => exact of_error (bind_of_error hm.error_inv)
  | ok b =>
    obtain ⟨a, s', hrun, hQ⟩ := hm.ok_inv
    exact after hrun (hf a s' b rfl hQ)

/-- The answer of the specification is a function of another one. -/
theorem of_map {δ : Type} {g : δ → β} {r : Except ε δ} (h : m.Simulates Q s (r.map g)) :
    m.Simulates (fun a s' d => Q a s' (g d)) s r := by
  cases r with
  | error e => exact of_error h.error_inv
  | ok d =>
    obtain ⟨a, s', hrun, hQ⟩ := h.ok_inv
    exact of_ok hrun hQ

end Simulates

end Transaction
