import Mathlib.Logic.Relation

/-!
# Programs over a store of atomic calls

A `Program` is a client of a shared store: it returns, or it issues one atomic call and goes on
with the answer. The store is a function `exec` from a call and a state to an answer and a state.

* `run`: the program alone.
* `Cut`: the program stopped between two calls.
* `Interleave`: two programs whose calls are interleaved.
* `Clients`: any number of programs, started and stopped at any point, next to an environment.
* `Admitted`: any number of programs, every call of which is admitted where it is executed.
* `Beside`: one program whose calls are interleaved with the steps of others.

`Ends` is the rule of pre- and postconditions for a program run alone, with a postcondition for its
results and one for its errors. `Meets` is the rule with interference: between two calls of the
program the state may move by `rely`, every call issued is admitted by `adm` where it is executed,
and the result satisfies `Q`. `Keeps` is its special case for an invariant of the client.
-/

/-- A client program over atomic calls. -/
inductive Program (Call : Type) (Out : Call → Type) (ε α : Type) where
  | done (r : Except ε α)
  | call (c : Call) (k : Except ε (Out c) → Program Call Out ε α)

namespace Program

variable {Call : Type} {Out : Call → Type} {ε α β γ σ : Type}

/-- Sequencing; an error ends the program. -/
def bind : Program Call Out ε α → (α → Program Call Out ε β) → Program Call Out ε β
  | done (.ok a), f => f a
  | done (.error e), _ => done (.error e)
  | call c k, f => call c fun r => (k r).bind f

/-- Runs `h` on the error a program ends with. -/
def handle (h : ε → Program Call Out ε α) : Program Call Out ε α → Program Call Out ε α
  | done (.ok a) => done (.ok a)
  | done (.error e) => h e
  | call c k => call c fun r => (k r).handle h

instance : Monad (Program Call Out ε) where
  pure a := done (.ok a)
  bind := bind

instance : MonadExceptOf ε (Program Call Out ε) where
  throw e := done (.error e)
  tryCatch p h := p.handle h

/-- One call. -/
def invoke (c : Call) : Program Call Out ε (Out c) := call c done

/-- Lifts a computation without calls. -/
def ofExcept (r : Except ε α) : Program Call Out ε α := done r

/-- Hands an error to the caller as a value instead of ending the program. -/
def attempt : Program Call Out ε α → Program Call Out ε (Except ε α)
  | done r => done (.ok r)
  | call c k => call c fun r => (k r).attempt

/-- Runs `f` on the elements in turn, stopping at the first error. -/
def forEach (f : β → Program Call Out ε Unit) : List β → Program Call Out ε Unit
  | [] => pure ()
  | b :: bs => f b >>= fun _ => forEach f bs

theorem bind_assoc_program (p : Program Call Out ε α) (f : α → Program Call Out ε β)
    (g : β → Program Call Out ε γ) : (p.bind f).bind g = p.bind fun a => (f a).bind g := by
  induction p with
  | done r => cases r <;> rfl
  | call c k ih => exact congrArg (call c) (funext fun r => ih r)

theorem bind_done_ok (p : Program Call Out ε α) : (p.bind fun a => done (.ok a)) = p := by
  induction p with
  | done r => cases r <;> rfl
  | call c k ih => exact congrArg (call c) (funext fun r => ih r)

instance : LawfulMonad (Program Call Out ε) :=
  LawfulMonad.mk' _ bind_done_ok (fun _ _ => rfl) bind_assoc_program

/-! ## Running alone -/

section Run

variable (exec : (c : Call) → σ → Except ε (Out c) × σ)

/-- The result of the program run alone, and the state it leaves. -/
def run : Program Call Out ε α → σ → Except ε α × σ
  | done r, s => (r, s)
  | call c k, s => run (k (exec c s).1) (exec c s).2

@[simp] theorem run_done (r : Except ε α) (s : σ) : run exec (done r) s = (r, s) := rfl

@[simp] theorem run_call (c : Call) (k : Except ε (Out c) → Program Call Out ε α) (s : σ) :
    run exec (call c k) s = run exec (k (exec c s).1) (exec c s).2 := rfl

@[simp] theorem run_pure (a : α) (s : σ) :
    run exec (pure a : Program Call Out ε α) s = (.ok a, s) := rfl

@[simp] theorem run_throw (e : ε) (s : σ) :
    run exec (throw e : Program Call Out ε α) s = (.error e, s) := rfl

@[simp] theorem run_ofExcept (r : Except ε α) (s : σ) :
    run exec (ofExcept r : Program Call Out ε α) s = (r, s) := rfl

@[simp] theorem run_invoke (c : Call) (s : σ) :
    run exec (invoke c : Program Call Out ε (Out c)) s = exec c s := rfl

theorem run_bind (p : Program Call Out ε α) (f : α → Program Call Out ε β) (s : σ) :
    run exec (p >>= f) s =
      match run exec p s with
      | (.ok a, s') => run exec (f a) s'
      | (.error e, s') => (.error e, s') := by
  change run exec (p.bind f) s = _
  induction p generalizing s with
  | done r => cases r <;> rfl
  | call c k ih => exact ih _ _

theorem run_bind_ok {p : Program Call Out ε α} {f : α → Program Call Out ε β} {s s' : σ} {a : α}
    (h : run exec p s = (.ok a, s')) : run exec (p >>= f) s = run exec (f a) s' := by
  rw [run_bind, h]

theorem run_bind_error {p : Program Call Out ε α} {f : α → Program Call Out ε β} {s s' : σ}
    {e : ε} (h : run exec p s = (.error e, s')) : run exec (p >>= f) s = (.error e, s') := by
  rw [run_bind, h]

/-- Where what follows does not fail, a sequence fails by its first part. -/
theorem run_error_of_bind {p : Program Call Out ε α} {f : α → Program Call Out ε β} {s s' : σ}
    {e : ε} (h : run exec (p >>= f) s = (.error e, s'))
    (hf : ∀ a t, run exec p s = (.ok a, t) → ∃ b t', run exec (f a) t = (.ok b, t')) :
    run exec p s = (.error e, s') := by
  rw [run_bind] at h
  obtain ⟨⟨r, t⟩, hrun⟩ : ∃ x, run exec p s = x := ⟨_, rfl⟩
  rw [hrun] at h hf ⊢
  cases r with
  | ok a =>
    obtain ⟨b, t', hok⟩ := hf a t rfl
    dsimp only at h
    rw [hok] at h
    cases h
  | error e' =>
    cases h
    rfl

@[simp] theorem run_attempt (p : Program Call Out ε α) (s : σ) :
    run exec p.attempt s = (.ok (run exec p s).1, (run exec p s).2) := by
  induction p generalizing s with
  | done r => rfl
  | call c k ih => exact ih _ _

@[simp] theorem run_forEach_nil (f : β → Program Call Out ε Unit) (s : σ) :
    run exec (forEach f []) s = (.ok (), s) := rfl

theorem run_forEach_cons (f : β → Program Call Out ε Unit) (b : β) (bs : List β) (s : σ) :
    run exec (forEach f (b :: bs)) s =
      run exec (f b >>= fun _ => forEach f bs) s := rfl

end Run

/-! ## Programs restricted to some calls -/

/-- Every call the program can issue satisfies `P`. -/
def OnlyCalls (P : Call → Prop) : Program Call Out ε α → Prop
  | done _ => True
  | call c k => P c ∧ ∀ r, (k r).OnlyCalls P

namespace OnlyCalls

variable {P : Call → Prop}

theorem done (r : Except ε α) : (Program.done r : Program Call Out ε α).OnlyCalls P := trivial

theorem pure (a : α) : (Pure.pure a : Program Call Out ε α).OnlyCalls P := trivial

theorem throw (e : ε) : (throw e : Program Call Out ε α).OnlyCalls P := trivial

theorem ofExcept (r : Except ε α) : (Program.ofExcept r : Program Call Out ε α).OnlyCalls P :=
  trivial

theorem invoke {c : Call} (h : P c) :
    (Program.invoke c : Program Call Out ε (Out c)).OnlyCalls P := ⟨h, fun _ => trivial⟩

theorem bind {p : Program Call Out ε α} {f : α → Program Call Out ε β} (hp : p.OnlyCalls P)
    (hf : ∀ a, (f a).OnlyCalls P) : (p >>= f).OnlyCalls P := by
  change (p.bind f).OnlyCalls P
  induction p with
  | done r =>
    cases r with
    | ok a => exact hf a
    | error e => trivial
  | call c k ih => exact ⟨hp.1, fun r => ih r (hp.2 r)⟩

theorem attempt {p : Program Call Out ε α} (hp : p.OnlyCalls P) : p.attempt.OnlyCalls P := by
  induction p with
  | done r => trivial
  | call c k ih => exact ⟨hp.1, fun r => ih r (hp.2 r)⟩

theorem forEach {f : β → Program Call Out ε Unit} (hf : ∀ b, (f b).OnlyCalls P)
    (bs : List β) : (Program.forEach f bs).OnlyCalls P := by
  induction bs with
  | nil => trivial
  | cons b bs ih => exact bind (hf b) fun _ => ih

theorem mono {P' : Call → Prop} (h : ∀ c, P c → P' c) {p : Program Call Out ε α}
    (hp : p.OnlyCalls P) : p.OnlyCalls P' := by
  induction p with
  | done r => trivial
  | call c k ih => exact ⟨h c hp.1, fun r => ih r (hp.2 r)⟩

theorem and {P' : Call → Prop} {p : Program Call Out ε α} (hp : p.OnlyCalls P)
    (hp' : p.OnlyCalls P') : p.OnlyCalls fun c => P c ∧ P' c := by
  induction p with
  | done r => trivial
  | call c k ih => exact ⟨⟨hp.1, hp'.1⟩, fun r => ih r (hp.2 r) (hp'.2 r)⟩

/-- A program that only reads leaves the state as it was. -/
theorem run_snd {exec : (c : Call) → σ → Except ε (Out c) × σ}
    (hreads : ∀ c s, P c → (exec c s).2 = s) {p : Program Call Out ε α}
    (hp : p.OnlyCalls P) (s : σ) : (run exec p s).2 = s := by
  induction p generalizing s with
  | done r => rfl
  | call c k ih =>
    rw [run_call, ih _ (hp.2 _), hreads c s hp.1]

end OnlyCalls

/-- Every result of the program satisfies `R`, whatever its calls return. -/
def Returns (R : α → Prop) : Program Call Out ε α → Prop
  | done (.ok a) => R a
  | done (.error _) => True
  | call _ k => ∀ r, (k r).Returns R

namespace Returns

variable {R : α → Prop}

theorem pure {a : α} (h : R a) : (Pure.pure a : Program Call Out ε α).Returns R := h

theorem throw (e : ε) : (throw e : Program Call Out ε α).Returns R := trivial

theorem bind {S : β → Prop} {p : Program Call Out ε α} {f : α → Program Call Out ε β}
    (hp : p.Returns R) (hf : ∀ a, R a → (f a).Returns S) : (p >>= f).Returns S := by
  change (p.bind f).Returns S
  induction p with
  | done r =>
    cases r with
    | ok a => exact hf a hp
    | error e => trivial
  | call c k ih => exact fun r => ih r (hp r)

/-- Nothing is known of the result. -/
theorem any (p : Program Call Out ε α) : p.Returns fun _ => True := by
  induction p with
  | done r => cases r <;> trivial
  | call c k ih => exact ih

end Returns

/-- Every error that the program itself raises satisfies `E`, as long as its calls succeed. -/
def Throws (E : ε → Prop) : Program Call Out ε α → Prop
  | done (.ok _) => True
  | done (.error e) => E e
  | call _ k => ∀ a, (k (.ok a)).Throws E

namespace Throws

variable {E : ε → Prop}

theorem pure (a : α) : (Pure.pure a : Program Call Out ε α).Throws E := trivial

theorem throw {e : ε} (h : E e) : (throw e : Program Call Out ε α).Throws E := h

theorem invoke (c : Call) : (Program.invoke c : Program Call Out ε (Out c)).Throws E :=
  fun _ => trivial

theorem bind {p : Program Call Out ε α} {f : α → Program Call Out ε β} (hp : p.Throws E)
    (hf : ∀ a, (f a).Throws E) : (p >>= f).Throws E := by
  change (p.bind f).Throws E
  induction p with
  | done r =>
    cases r with
    | ok a => exact hf a
    | error e => exact hp
  | call c k ih => exact fun a => ih (.ok a) (hp a)

theorem forEach {f : β → Program Call Out ε Unit} (hf : ∀ b, (f b).Throws E) (bs : List β) :
    (Program.forEach f bs).Throws E := by
  induction bs with
  | nil => trivial
  | cons b bs ih => exact bind (hf b) fun _ => ih

/-- Where no call fails, every error is one that the program raises. -/
theorem of_run {P : Call → Prop} {exec : (c : Call) → σ → Except ε (Out c) × σ}
    (hok : ∀ c s, P c → ∃ a, (exec c s).1 = .ok a) {p : Program Call Out ε α}
    (hp : p.OnlyCalls P) (h : p.Throws E) {s : σ} {e : ε} (he : (run exec p s).1 = .error e) :
    E e := by
  induction p generalizing s with
  | done r =>
    rw [run_done] at he
    cases r with
    | ok a => cases he
    | error e' =>
      cases he
      exact h
  | call c k ih =>
    obtain ⟨a, ha⟩ := hok c s hp.1
    rw [run_call, ha] at he
    exact ih _ (hp.2 _) (h a) he

end Throws

/-- What is known of the first result may be used for the calls that follow. -/
theorem OnlyCalls.bind_returns {P : Call → Prop} {R : α → Prop} {p : Program Call Out ε α}
    {f : α → Program Call Out ε β} (hp : p.OnlyCalls P) (hr : p.Returns R)
    (hf : ∀ a, R a → (f a).OnlyCalls P) : (p >>= f).OnlyCalls P := by
  change (p.bind f).OnlyCalls P
  induction p with
  | done r =>
    cases r with
    | ok a => exact hf a hr
    | error e => trivial
  | call c k ih => exact ⟨hp.1, fun r => ih r (hp.2 r) (hr r)⟩

/-! ## Programs that only read -/

section Eval

variable (exec : (c : Call) → σ → Except ε (Out c) × σ)

/-- The result of a program run alone. -/
def eval (p : Program Call Out ε α) (s : σ) : Except ε α := (run exec p s).1

@[simp] theorem eval_pure (a : α) (s : σ) :
    eval exec (pure a : Program Call Out ε α) s = .ok a := rfl

@[simp] theorem eval_throw (e : ε) (s : σ) :
    eval exec (throw e : Program Call Out ε α) s = .error e := rfl

@[simp] theorem eval_ofExcept (r : Except ε α) (s : σ) :
    eval exec (ofExcept r : Program Call Out ε α) s = r := rfl

@[simp] theorem eval_invoke (c : Call) (s : σ) :
    eval exec (invoke c : Program Call Out ε (Out c)) s = (exec c s).1 := rfl

variable {exec} {P : Call → Prop} (hreads : ∀ c s, P c → (exec c s).2 = s)
  {p : Program Call Out ε α} (hp : p.OnlyCalls P)

include hreads hp

theorem OnlyCalls.run_eq (s : σ) : run exec p s = (eval exec p s, s) :=
  Prod.ext rfl (hp.run_snd hreads s)

/-- Reading first and going on with what was read. -/
theorem OnlyCalls.run_bind (f : α → Program Call Out ε β) (s : σ) :
    run exec (p >>= f) s =
      match eval exec p s with
      | .ok a => run exec (f a) s
      | .error e => (.error e, s) := by
  rw [Program.run_bind, hp.run_eq hreads s]
  cases eval exec p s <;> rfl

theorem OnlyCalls.eval_bind (f : α → Program Call Out ε β) (s : σ) :
    eval exec (p >>= f) s = eval exec p s >>= fun a => eval exec (f a) s := by
  unfold eval
  rw [hp.run_bind hreads f s]
  cases h : eval exec p s <;> simp only [eval] at h <;> rw [h] <;> rfl

end Eval

/-! ## What a program run alone ends with -/

section Ends

variable (exec : (c : Call) → σ → Except ε (Out c) × σ)

/-- Run alone from `s`, the program ends with a result for which `Q` holds of the state it leaves,
or with an error for which `E` does. -/
def Ends (E : ε → σ → Prop) (Q : α → σ → Prop) (p : Program Call Out ε α) (s : σ) : Prop :=
  match run exec p s with
  | (.ok a, s') => Q a s'
  | (.error e, s') => E e s'

variable {exec} {E : ε → σ → Prop} {s s' : σ}

namespace Ends

variable {Q : α → σ → Prop} {p : Program Call Out ε α}

theorem pure {a : α} (h : Q a s) : (Pure.pure a : Program Call Out ε α).Ends exec E Q s := h

theorem throw {e : ε} (h : E e s) : (throw e : Program Call Out ε α).Ends exec E Q s := h

theorem invoke {c : Call} {Q : Out c → σ → Prop} {a : Out c} (hrun : exec c s = (.ok a, s'))
    (h : Q a s') : (Program.invoke c : Program Call Out ε (Out c)).Ends exec E Q s := by
  unfold Ends
  rw [run_invoke, hrun]
  exact h

theorem invoke_error {c : Call} {Q : Out c → σ → Prop} {e : ε} (hrun : exec c s = (.error e, s'))
    (h : E e s') : (Program.invoke c : Program Call Out ε (Out c)).Ends exec E Q s := by
  unfold Ends
  rw [run_invoke, hrun]
  exact h

/-- Handling an error: the handler starts from what the error leaves. -/
theorem handle {handler : ε → Program Call Out ε α}
    (h : p.Ends exec (fun e s' => (handler e).Ends exec E Q s') Q s) :
    (p.handle handler).Ends exec E Q s := by
  induction p generalizing s with
  | done r => cases r <;> exact h
  | call c k ih => exact ih _ h

theorem ofExcept {r : Except ε α} (hok : ∀ a, r = .ok a → Q a s)
    (herror : ∀ e, r = .error e → E e s) :
    (Program.ofExcept r : Program Call Out ε α).Ends exec E Q s := by
  cases r with
  | ok a => exact hok a rfl
  | error e => exact herror e rfl

theorem error (h : p.Ends exec E Q s) {e : ε} (hrun : run exec p s = (.error e, s')) : E e s' := by
  unfold Ends at h
  rw [hrun] at h
  exact h

theorem result (h : p.Ends exec E Q s) {a : α} (hrun : run exec p s = (.ok a, s')) : Q a s' := by
  unfold Ends at h
  rw [hrun] at h
  exact h

/-- The two ways to end, each by its own argument. -/
theorem of_run (hok : ∀ a s', run exec p s = (.ok a, s') → Q a s')
    (herror : ∀ e s', run exec p s = (.error e, s') → E e s') : p.Ends exec E Q s := by
  obtain ⟨⟨r, s'⟩, hrun⟩ : ∃ x, run exec p s = x := ⟨_, rfl⟩
  unfold Ends
  rw [hrun]
  cases r with
  | ok a => exact hok a s' hrun
  | error e => exact herror e s' hrun

theorem conseq {E' : ε → σ → Prop} {Q' : α → σ → Prop} (h : p.Ends exec E Q s)
    (hE : ∀ e s', E e s' → E' e s') (hQ : ∀ a s', Q a s' → Q' a s') : p.Ends exec E' Q' s :=
  .of_run (fun _ _ hrun => hQ _ _ (h.result hrun)) fun _ _ hrun => hE _ _ (h.error hrun)

/-- Sequencing: what the first program ensures is what the second one starts from. -/
theorem bind {R : β → σ → Prop} {f : α → Program Call Out ε β} (hp : p.Ends exec E Q s)
    (hf : ∀ a s', Q a s' → (f a).Ends exec E R s') : (p >>= f).Ends exec E R s := by
  obtain ⟨⟨r, s'⟩, hrun⟩ : ∃ x, run exec p s = x := ⟨_, rfl⟩
  unfold Ends
  cases r with
  | ok a =>
    rw [run_bind_ok exec hrun]
    exact hf a s' (hp.result hrun)
  | error e =>
    rw [run_bind_error exec hrun]
    exact hp.error hrun

/-- What is known of the first run may be used for what follows. -/
theorem bind_of_run {R : β → σ → Prop} {f : α → Program Call Out ε β} {a : α}
    (hrun : run exec p s = (.ok a, s')) (hf : (f a).Ends exec E R s') :
    (p >>= f).Ends exec E R s := by
  unfold Ends
  rw [run_bind_ok exec hrun]
  exact hf

/-- Handing an error to the caller: what follows is given either. -/
theorem attempt_bind {R : β → σ → Prop} {f : Except ε α → Program Call Out ε β}
    (hp : p.Ends exec E Q s) (hok : ∀ a s', Q a s' → (f (.ok a)).Ends exec E R s')
    (herror : ∀ e s', E e s' → (f (.error e)).Ends exec E R s') :
    (p.attempt >>= f).Ends exec E R s := by
  obtain ⟨⟨r, s'⟩, hrun⟩ : ∃ x, run exec p s = x := ⟨_, rfl⟩
  have hattempt := run_attempt exec p s
  unfold Ends
  rw [run_bind_ok exec hattempt, hrun]
  cases r with
  | ok a => exact hok a s' (hp.result hrun)
  | error e => exact herror e s' (hp.error hrun)

/-- What every round keeps, the loop keeps. -/
theorem forEach {I : σ → Prop} {f : β → Program Call Out ε Unit}
    (hf : ∀ b s, I s → (f b).Ends exec E (fun _ => I) s) (bs : List β) (hs : I s) :
    (Program.forEach f bs).Ends exec E (fun _ => I) s := by
  induction bs generalizing s with
  | nil => exact hs
  | cons b bs ih => exact (hf b s hs).bind fun _ _ => ih

/-- What every round does and no other undoes is done for every element. -/
theorem forEach_each {I : σ → Prop} {D : β → σ → Prop} {f : β → Program Call Out ε Unit}
    {bs : List β} (hf : ∀ b ∈ bs, ∀ s, I s → (f b).Ends exec E
      (fun _ s' => I s' ∧ D b s' ∧ ∀ b', D b' s → D b' s') s) (hs : I s) :
    (Program.forEach f bs).Ends exec E (fun _ s' => I s' ∧ (∀ b ∈ bs, D b s') ∧
      ∀ b', D b' s → D b' s') s := by
  induction bs generalizing s with
  | nil => exact ⟨hs, List.forall_mem_nil _, fun _ h => h⟩
  | cons b bs ih =>
    refine (hf b List.mem_cons_self s hs).bind fun _ s₁ h₁ => ?_
    refine (ih (fun b hb => hf b (List.mem_cons_of_mem _ hb)) h₁.1).conseq (fun _ _ h => h) ?_
    rintro _ s₂ ⟨hI, hall, hkept⟩
    exact ⟨hI, List.forall_mem_cons.mpr ⟨hkept b h₁.2.1, hall⟩,
      fun b' hb' => hkept b' (h₁.2.2 b' hb')⟩

end Ends

end Ends

/-! ## Stopping and interleaving -/

section Steps

variable (exec : (c : Call) → σ → Except ε (Out c) × σ)

/-- `Cut exec p s s'`: the program started in `s` and stopped between two calls, or returned,
leaving `s'`. -/
inductive Cut : Program Call Out ε α → σ → σ → Prop where
  | stop (p : Program Call Out ε α) (s : σ) : Cut p s s
  | step {c : Call} {k : Except ε (Out c) → Program Call Out ε α} {s s' : σ} :
      Cut (k (exec c s).1) (exec c s).2 s' → Cut (call c k) s s'

/-- A complete run is one of the ways to stop. -/
theorem cut_run (p : Program Call Out ε α) (s : σ) : Cut exec p s (run exec p s).2 := by
  induction p generalizing s with
  | done r => exact .stop _ s
  | call c k ih => exact .step (ih _ _)

/-- What is left after some number of calls. -/
def stopped : Nat → Program Call Out ε α → σ → σ
  | n + 1, call c k, s => stopped n (k (exec c s).1) (exec c s).2
  | _, _, s => s

theorem cut_stopped (n : Nat) (p : Program Call Out ε α) (s : σ) :
    Cut exec p s (stopped exec n p s) := by
  induction n generalizing p s with
  | zero =>
    cases p <;> exact .stop _ s
  | succ n ih =>
    cases p with
    | done r => exact .stop _ s
    | call c k => exact .step (ih _ _)

/-- `Interleave exec p q s rp rq s'`: the calls of `p` and `q` executed in some interleaving from
`s`, with the results `rp` and `rq` and the final state `s'`. -/
inductive Interleave : Program Call Out ε α → Program Call Out ε β → σ →
    Except ε α → Except ε β → σ → Prop where
  | done (ra : Except ε α) (rb : Except ε β) (s : σ) :
      Interleave (done ra) (done rb) s ra rb s
  | left {c : Call} {k : Except ε (Out c) → Program Call Out ε α} {q : Program Call Out ε β}
      {s s' : σ} {ra : Except ε α} {rb : Except ε β} :
      Interleave (k (exec c s).1) q (exec c s).2 ra rb s' → Interleave (call c k) q s ra rb s'
  | right {c : Call} {k : Except ε (Out c) → Program Call Out ε β} {p : Program Call Out ε α}
      {s s' : σ} {ra : Except ε α} {rb : Except ε β} :
      Interleave p (k (exec c s).1) (exec c s).2 ra rb s' → Interleave p (call c k) s ra rb s'

/-- One step of the store: an admitted call, or a step of the environment. -/
inductive Step (adm : σ → Call → Prop) (env : σ → σ → Prop) : σ → σ → Prop where
  | call {s : σ} (c : Call) : adm s c → Step adm env s (exec c s).2
  | env {s s' : σ} : env s s' → Step adm env s s'

/-- Any number of admitted calls and environment steps. -/
abbrev Steps (adm : σ → Call → Prop) (env : σ → σ → Prop) : σ → σ → Prop :=
  Relation.ReflTransGen (Step exec adm env)

/-- Any number of clients: a method is started, a client executes its next call, a client is
dropped between two calls, or the environment moves. -/
inductive Clients (methods : Program Call Out ε Unit → Prop) (env : σ → σ → Prop) :
    σ × List (Program Call Out ε Unit) → σ × List (Program Call Out ε Unit) → Prop where
  | start {s : σ} {ps : List (Program Call Out ε Unit)} {p : Program Call Out ε Unit} :
      methods p → Clients methods env (s, ps) (s, p :: ps)
  | call {s : σ} {ps qs : List (Program Call Out ε Unit)} {c : Call}
      {k : Except ε (Out c) → Program Call Out ε Unit} :
      Clients methods env (s, ps ++ call c k :: qs) ((exec c s).2, ps ++ k (exec c s).1 :: qs)
  | drop {s : σ} {ps qs : List (Program Call Out ε Unit)} {p : Program Call Out ε Unit} :
      Clients methods env (s, ps ++ p :: qs) (s, ps ++ qs)
  | env {s s' : σ} {ps : List (Program Call Out ε Unit)} :
      env s s' → Clients methods env (s, ps) (s', ps)

/-- Any number of clients, as long as every call is admitted by `adm` where it is executed. -/
inductive Admitted (adm : σ → Call → Prop) (methods : Program Call Out ε Unit → Prop) :
    σ × List (Program Call Out ε Unit) → σ × List (Program Call Out ε Unit) → Prop where
  | start {s : σ} {ps : List (Program Call Out ε Unit)} {p : Program Call Out ε Unit} :
      methods p → Admitted adm methods (s, ps) (s, p :: ps)
  | call {s : σ} {ps qs : List (Program Call Out ε Unit)} {c : Call}
      {k : Except ε (Out c) → Program Call Out ε Unit} :
      adm s c → Admitted adm methods (s, ps ++ call c k :: qs)
        ((exec c s).2, ps ++ k (exec c s).1 :: qs)
  | drop {s : σ} {ps qs : List (Program Call Out ε Unit)} {p : Program Call Out ε Unit} :
      Admitted adm methods (s, ps ++ p :: qs) (s, ps ++ qs)

/-- `Beside exec adm others p x r y`: the program `p` is run from `x` with admitted calls, and
between them the `others` take steps; it ends with the result `r`, leaving `y`. -/
inductive Beside {τ : Type} (adm : σ → Call → Prop) (others : σ × τ → σ × τ → Prop) :
    Program Call Out ε α → σ × τ → Except ε α → σ × τ → Prop where
  | done (r : Except ε α) (x : σ × τ) : Beside adm others (done r) x r x
  | others {p : Program Call Out ε α} {x y z : σ × τ} {r : Except ε α} :
      others x y → Beside adm others p y r z → Beside adm others p x r z
  | call {c : Call} {k : Except ε (Out c) → Program Call Out ε α} {x z : σ × τ}
      {r : Except ε α} : adm x.1 c →
      Beside adm others (k (exec c x.1).1) ((exec c x.1).2, x.2) r z →
      Beside adm others (call c k) x r z

variable {exec}

/-- A program that has ended ends with its result. -/
theorem Beside.result_eq {τ : Type} {adm : σ → Call → Prop} {others : σ × τ → σ × τ → Prop}
    {r r' : Except ε α} {x y : σ × τ}
    (h : Beside exec adm others (Program.done r : Program Call Out ε α) x r' y) : r' = r := by
  generalize hp : (Program.done r : Program Call Out ε α) = p at h
  induction h with
  | done r' x =>
    cases hp
    rfl
  | others _ _ ih => exact ih hp
  | call => cases hp

/-- Admitted clients take admitted steps. -/
theorem steps_of_admitted {adm : σ → Call → Prop} {methods : Program Call Out ε Unit → Prop}
    {env : σ → σ → Prop} {x y : σ × List (Program Call Out ε Unit)}
    (h : Relation.ReflTransGen (Admitted exec adm methods) x y) : Steps exec adm env x.1 y.1 := by
  induction h with
  | refl => exact .refl
  | tail _ hstep ih =>
    cases hstep with
    | start => exact ih
    | call hadm => exact ih.tail (.call _ hadm)
    | drop => exact ih

/-- What the calls of every method satisfy may be added to what is admitted. -/
theorem admitted_onlyCalls {P : Call → Prop} {adm : σ → Call → Prop}
    {methods : Program Call Out ε Unit → Prop} (hmethods : ∀ p, methods p → p.OnlyCalls P)
    {x y : σ × List (Program Call Out ε Unit)}
    (h : Relation.ReflTransGen (Admitted exec adm methods) x y)
    (hx : ∀ p ∈ x.2, p.OnlyCalls P) :
    Relation.ReflTransGen (Admitted exec (fun s c => adm s c ∧ P c) methods) x y ∧
      ∀ p ∈ y.2, p.OnlyCalls P := by
  induction h with
  | refl => exact ⟨.refl, hx⟩
  | tail _ hstep ih =>
    obtain ⟨hrun, hall⟩ := ih
    cases hstep with
    | start hp => exact ⟨hrun.tail (.start hp), List.forall_mem_cons.mpr ⟨hmethods _ hp, hall⟩⟩
    | call hadm =>
      have hcall := hall _ (List.mem_append_right _ List.mem_cons_self)
      refine ⟨hrun.tail (.call ⟨hadm, hcall.1⟩), fun p hp => ?_⟩
      rcases List.mem_append.mp hp with hp | hp
      · exact hall p (List.mem_append_left _ hp)
      · rcases List.mem_cons.mp hp with rfl | hp
        · exact hcall.2 _
        · exact hall p (List.mem_append_right _ (List.mem_cons_of_mem _ hp))
    | drop =>
      refine ⟨hrun.tail .drop, fun p hp => hall p ?_⟩
      rcases List.mem_append.mp hp with hp | hp
      · exact List.mem_append_left _ hp
      · exact List.mem_append_right _ (List.mem_cons_of_mem _ hp)

/-- What every step keeps holds after any number of steps. -/
theorem Steps.invariant {adm : σ → Call → Prop} {env : σ → σ → Prop} {I : σ → Prop}
    (hcall : ∀ s c, I s → adm s c → I (exec c s).2) (henv : ∀ s s', I s → env s s' → I s')
    {s s' : σ} (h : Steps exec adm env s s') (hs : I s) : I s' := by
  induction h with
  | refl => exact hs
  | tail _ hstep ih =>
    cases hstep with
    | call c hc => exact hcall _ _ ih hc
    | env he => exact henv _ _ ih he

/-- A reflexive and transitive relation that every step respects is respected by runs. -/
theorem Steps.relation {adm : σ → Call → Prop} {env : σ → σ → Prop} {R : σ → σ → Prop}
    (hrefl : ∀ s, R s s) (htrans : ∀ s s' s'', R s s' → R s' s'' → R s s'')
    (hcall : ∀ s c, adm s c → R s (exec c s).2) (henv : ∀ s s', env s s' → R s s')
    {s s' : σ} (h : Steps exec adm env s s') : R s s' := by
  induction h with
  | refl => exact hrefl _
  | tail _ hstep ih =>
    cases hstep with
    | call c hc => exact htrans _ _ _ ih (hcall _ _ hc)
    | env he => exact htrans _ _ _ ih (henv _ _ he)

theorem Steps.mono {adm adm' : σ → Call → Prop} {env env' : σ → σ → Prop}
    (hadm : ∀ s c, adm s c → adm' s c) (henv : ∀ s s', env s s' → env' s s') {s s' : σ}
    (h : Steps exec adm env s s') : Steps exec adm' env' s s' := by
  induction h with
  | refl => exact .refl
  | tail _ hstep ih =>
    cases hstep with
    | call c hc => exact ih.tail (.call c (hadm _ _ hc))
    | env he => exact ih.tail (.env (henv _ _ he))

/-- A client is run to its end. -/
theorem clients_finish {methods : Program Call Out ε Unit → Prop} {env : σ → σ → Prop}
    (p : Program Call Out ε Unit) (s : σ) :
    Relation.ReflTransGen (Clients exec methods env) (s, [p]) ((run exec p s).2, []) := by
  induction p generalizing s with
  | done r =>
    have hdrop : Clients exec methods env (s, [] ++ done r :: []) (s, [] ++ []) := .drop
    exact .single hdrop
  | call c k ih =>
    have hcall : Clients exec methods env (s, [] ++ call c k :: [])
        ((exec c s).2, [] ++ k (exec c s).1 :: []) := .call
    exact .head hcall (ih _ _)

/-- A method that no other client disturbs. -/
theorem clients_method {methods : Program Call Out ε Unit → Prop} {env : σ → σ → Prop}
    {p : Program Call Out ε Unit} (h : methods p) (s : σ) :
    Relation.ReflTransGen (Clients exec methods env) (s, []) ((run exec p s).2, []) :=
  .head (Clients.start h) (clients_finish p s)

end Steps

/-! ## Given calls -/

section Given

variable (exec : (c : Call) → σ → Except ε (Out c) × σ)

/-- The state after the given calls. -/
def after : List Call → σ → σ
  | [], s => s
  | c :: cs, s => after cs (exec c s).2

/-- Every given call is admitted where it is executed. -/
def Legal (adm : σ → Call → Prop) : List Call → σ → Prop
  | [], _ => True
  | c :: cs, s => adm s c ∧ Legal adm cs (exec c s).2

instance Legal.decidable (adm : σ → Call → Prop) [∀ s, DecidablePred (adm s)] :
    (cs : List Call) → (s : σ) → Decidable (Legal exec adm cs s)
  | [], _ => isTrue trivial
  | c :: cs, s =>
    have := Legal.decidable adm cs (exec c s).2
    inferInstanceAs (Decidable (adm s c ∧ Legal exec adm cs (exec c s).2))

variable {exec}

theorem steps_after {adm : σ → Call → Prop} {env : σ → σ → Prop} {cs : List Call} {s : σ}
    (h : Legal exec adm cs s) : Steps exec adm env s (after exec cs s) := by
  induction cs generalizing s with
  | nil => exact .refl
  | cons c cs ih => exact .head (.call c h.1) (ih h.2)

end Given

/-! ## Pre- and postconditions with interference -/

section Meets

variable (exec : (c : Call) → σ → Except ε (Out c) × σ) (rely : σ → σ → Prop)
  (adm : σ → Call → Prop)

/-- From `s`, and with the state moved by `rely` before each call, every call of the program is
admitted and its result satisfies `Q`. -/
def Meets (Q : Except ε α → σ → Prop) : Program Call Out ε α → σ → Prop
  | done r, s => Q r s
  | call c k, s => ∀ s', rely s s' → adm s' c ∧ (k (exec c s').1).Meets Q (exec c s').2

variable {exec rely adm}

theorem Meets.conseq {Q Q' : Except ε α → σ → Prop} (hQ : ∀ r s, Q r s → Q' r s)
    {p : Program Call Out ε α} {s : σ} (h : p.Meets exec rely adm Q s) :
    p.Meets exec rely adm Q' s := by
  induction p generalizing s with
  | done r => exact hQ _ _ h
  | call c k ih => exact fun s' hs => ⟨(h s' hs).1, ih _ (h s' hs).2⟩

/-- Less interference, and calls admitted by a weaker condition. -/
theorem Meets.mono {rely' : σ → σ → Prop} {adm' : σ → Call → Prop}
    (hrely : ∀ s s', rely' s s' → rely s s') (hadm : ∀ s c, adm s c → adm' s c)
    {Q : Except ε α → σ → Prop} {p : Program Call Out ε α} {s : σ}
    (h : p.Meets exec rely adm Q s) : p.Meets exec rely' adm' Q s := by
  induction p generalizing s with
  | done r => exact h
  | call c k ih =>
    intro s' hs
    have hcall := h s' (hrely _ _ hs)
    exact ⟨hadm _ _ hcall.1, ih _ hcall.2⟩

/-- What is known of every call the program can issue may be added. -/
theorem Meets.and_onlyCalls {P : Call → Prop} {Q : Except ε α → σ → Prop}
    {p : Program Call Out ε α} {s : σ} (h : p.Meets exec rely adm Q s) (hp : p.OnlyCalls P) :
    p.Meets exec rely (fun s c => adm s c ∧ P c) Q s := by
  induction p generalizing s with
  | done r => exact h
  | call c k ih => exact fun s' hs => ⟨⟨(h s' hs).1, hp.1⟩, ih _ (h s' hs).2 (hp.2 _)⟩

theorem Meets.pure {Q : Except ε α → σ → Prop} {a : α} {s : σ} (h : Q (.ok a) s) :
    (Pure.pure a : Program Call Out ε α).Meets exec rely adm Q s := h

theorem Meets.throw {Q : Except ε α → σ → Prop} {e : ε} {s : σ} (h : Q (.error e) s) :
    (throw e : Program Call Out ε α).Meets exec rely adm Q s := h

theorem Meets.invoke {c : Call} {Q : Except ε (Out c) → σ → Prop} {s : σ}
    (h : ∀ s', rely s s' → adm s' c ∧ Q (exec c s').1 (exec c s').2) :
    (Program.invoke c : Program Call Out ε (Out c)).Meets exec rely adm Q s := h

/-- Sequencing: what the first program ensures is what the second one starts from. -/
theorem Meets.bind {Q : Except ε β → σ → Prop} {p : Program Call Out ε α}
    {f : α → Program Call Out ε β} {s : σ}
    (h : p.Meets exec rely adm (fun r s' =>
      match r with
      | .ok a => (f a).Meets exec rely adm Q s'
      | .error e => Q (.error e) s') s) :
    (p >>= f).Meets exec rely adm Q s := by
  change (p.bind f).Meets exec rely adm Q s
  induction p generalizing s with
  | done r => cases r <;> exact h
  | call c k ih => exact fun s' hs => ⟨(h s' hs).1, ih _ (h s' hs).2⟩

/-- One call, and what is done with its answer. -/
theorem Meets.bind_invoke {c : Call} {Q : Except ε β → σ → Prop}
    {f : Out c → Program Call Out ε β} {s : σ}
    (h : ∀ s', rely s s' → adm s' c ∧
      match (exec c s').1 with
      | .ok a => (f a).Meets exec rely adm Q (exec c s').2
      | .error e => Q (.error e) (exec c s').2) :
    (Program.invoke c >>= f).Meets exec rely adm Q s := by
  refine .bind (.invoke fun s' hs => ⟨(h s' hs).1, ?_⟩)
  have hnext := (h s' hs).2
  cases hr : (exec c s').1 with
  | ok a =>
    rw [hr] at hnext
    exact hnext
  | error e =>
    rw [hr] at hnext
    exact hnext

theorem Meets.attempt {Q : Except ε (Except ε α) → σ → Prop} {p : Program Call Out ε α} {s : σ}
    (h : p.Meets exec rely adm (fun r s' => Q (.ok r) s') s) :
    p.attempt.Meets exec rely adm Q s := by
  induction p generalizing s with
  | done r => exact h
  | call c k ih => exact fun s' hs => ⟨(h s' hs).1, ih _ (h s' hs).2⟩

/-! ### Programs that keep an invariant -/

variable (exec rely adm) in
/-- From every state with `I`, every call is admitted and the program ends with `I`. -/
def Keeps (I : σ → Prop) (p : Program Call Out ε α) : Prop :=
  ∀ s, I s → p.Meets exec rely adm (fun _ => I) s

namespace Keeps

variable {I : σ → Prop}

theorem done (r : Except ε α) : (Program.done r : Program Call Out ε α).Keeps exec rely adm I :=
  fun _ hs => hs

theorem pure (a : α) : (Pure.pure a : Program Call Out ε α).Keeps exec rely adm I :=
  fun _ hs => hs

theorem throw (e : ε) : (throw e : Program Call Out ε α).Keeps exec rely adm I :=
  fun _ hs => hs

theorem invoke (hrely : ∀ s s', I s → rely s s' → I s') {c : Call}
    (h : ∀ s, I s → adm s c ∧ I (exec c s).2) :
    (Program.invoke c : Program Call Out ε (Out c)).Keeps exec rely adm I :=
  fun _ hs _ hs' => h _ (hrely _ _ hs hs')

theorem bind {p : Program Call Out ε α} {f : α → Program Call Out ε β}
    (hp : p.Keeps exec rely adm I) (hf : ∀ a, (f a).Keeps exec rely adm I) :
    (p >>= f).Keeps exec rely adm I := by
  intro s hs
  refine Meets.bind (Meets.conseq ?_ (hp s hs))
  intro r s' hs'
  cases r with
  | ok a => exact hf a s' hs'
  | error e => exact hs'

theorem attempt {p : Program Call Out ε α} (hp : p.Keeps exec rely adm I) :
    p.attempt.Keeps exec rely adm I :=
  fun s hs => Meets.attempt (hp s hs)

theorem of_onlyCalls (hrely : ∀ s s', I s → rely s s' → I s') {P : Call → Prop}
    (h : ∀ c s, P c → I s → adm s c ∧ I (exec c s).2) {p : Program Call Out ε α}
    (hp : p.OnlyCalls P) : p.Keeps exec rely adm I := by
  induction p with
  | done r => exact done r
  | call c k ih =>
    intro s hs s' hs'
    have hc := h c s' hp.1 (hrely s s' hs hs')
    exact ⟨hc.1, ih _ (hp.2 _) _ hc.2⟩

end Keeps

/-- Interference before the first call is absorbed. -/
theorem Meets.rely_left (htrans : ∀ s s' s'', rely s s' → rely s' s'' → rely s s'')
    {Q : Except ε α → σ → Prop} (hQ : ∀ r s s', Q r s → rely s s' → Q r s')
    {p : Program Call Out ε α} {s s' : σ} (h : p.Meets exec rely adm Q s) (hs : rely s s') :
    p.Meets exec rely adm Q s' := by
  cases p with
  | done r => exact hQ _ _ _ h hs
  | call c k => exact fun s'' hs' => h s'' (htrans _ _ _ hs hs')

/-- A program that meets its condition, stopped anywhere, has made admitted calls only. -/
theorem Meets.steps_of_cut (hrefl : ∀ s, rely s s) {env : σ → σ → Prop}
    {Q : Except ε α → σ → Prop} {p : Program Call Out ε α} {s s' : σ}
    (h : p.Meets exec rely adm Q s) (hcut : Cut exec p s s') : Steps exec adm env s s' := by
  induction hcut with
  | stop p s => exact .refl
  | step _ ih =>
    have hcall := h _ (hrefl _)
    exact .head (.call _ hcall.1) (ih hcall.2)

theorem Meets.steps_of_run (hrefl : ∀ s, rely s s) {env : σ → σ → Prop}
    {Q : Except ε α → σ → Prop} {p : Program Call Out ε α} {s : σ}
    (h : p.Meets exec rely adm Q s) : Steps exec adm env s (run exec p s).2 :=
  h.steps_of_cut hrefl (cut_run exec p s)

/-- Clients whose methods tolerate each other's calls make admitted calls only. The methods may
rely on `I` where they are started. -/
theorem steps_of_clients {methods : Program Call Out ε Unit → Prop} {env : σ → σ → Prop}
    {I : σ → Prop} (hrefl : ∀ s, rely s s)
    (htrans : ∀ s s' s'', rely s s' → rely s' s'' → rely s s'')
    (hcall : ∀ s c, I s → adm s c → rely s (exec c s).2 ∧ I (exec c s).2)
    (henv : ∀ s s', I s → env s s' → rely s s' ∧ I s')
    (hmethods : ∀ p, methods p → ∀ s, I s → p.Meets exec rely adm (fun _ _ => True) s)
    {x y : σ × List (Program Call Out ε Unit)}
    (h : Relation.ReflTransGen (Clients exec methods env) x y) (hI : I x.1)
    (hx : ∀ p ∈ x.2, p.Meets exec rely adm (fun _ _ => True) x.1) :
    Steps exec adm env x.1 y.1 ∧ I y.1 ∧
      ∀ p ∈ y.2, p.Meets exec rely adm (fun _ _ => True) y.1 := by
  have hstable : ∀ (r : Except ε Unit) (s s' : σ), True → rely s s' → True :=
    fun _ _ _ _ _ => trivial
  induction h with
  | refl => exact ⟨.refl, hI, hx⟩
  | tail _ hstep ih =>
    obtain ⟨hsteps, hinv, hall⟩ := ih
    cases hstep with
    | start hp => exact ⟨hsteps, hinv, List.forall_mem_cons.mpr ⟨hmethods _ hp _ hinv, hall⟩⟩
    | call =>
      have hhere := hall _ (List.mem_append_right _ List.mem_cons_self) _ (hrefl _)
      obtain ⟨hmoved, hinv'⟩ := hcall _ _ hinv hhere.1
      refine ⟨hsteps.tail (.call _ hhere.1), hinv', fun p hp => ?_⟩
      rcases List.mem_append.mp hp with hp | hp
      · exact (hall p (List.mem_append_left _ hp)).rely_left htrans hstable hmoved
      · rcases List.mem_cons.mp hp with rfl | hp
        · exact hhere.2
        · exact (hall p (List.mem_append_right _ (List.mem_cons_of_mem _ hp))).rely_left htrans
            hstable hmoved
    | drop =>
      refine ⟨hsteps, hinv, fun p hp => hall p ?_⟩
      rcases List.mem_append.mp hp with hp | hp
      · exact List.mem_append_left _ hp
      · exact List.mem_append_right _ (List.mem_cons_of_mem _ hp)
    | env he =>
      obtain ⟨hmoved, hinv'⟩ := henv _ _ hinv he
      exact ⟨hsteps.tail (.env he), hinv', fun p hp =>
        (hall p hp).rely_left htrans hstable hmoved⟩

end Meets

end Program
