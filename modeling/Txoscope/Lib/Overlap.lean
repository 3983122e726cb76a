import Mathlib.Data.Nat.Notation
import Txoscope.Lib.Program

/-!
# Two programs side by side

`Reaches` is a program on its way: some of its calls are executed, and the rest of it remains. A
program that issues two calls is interleaved with another one by choosing where the other one is on
its way when each of them is executed (`interleave_call_iff`, `interleave_done_iff`).

`Issues` describes a program that first reads and then only writes: wherever it is stopped, its
remaining writes are a suffix of the given calls (`Issues.reaches`), and they stay the same if
someone changes the state without changing what the program still has to read (`Issues.run_snd`).

`Steady` describes a program that reads states of some kind and takes no notice of the differences
between them, so its result is the one it has in any of them (`Steady.meets`).
-/

namespace Program

variable {Call : Type} {Out : Call → Type} {ε α β σ : Type}

section Reaches

variable (exec : (c : Call) → σ → Except ε (Out c) × σ)

/-- `Reaches exec p s p' s'`: started in `s`, the program has led to `s'`, and `p'` remains. -/
inductive Reaches : Program Call Out ε α → σ → Program Call Out ε α → σ → Prop where
  | refl (p : Program Call Out ε α) (s : σ) : Reaches p s p s
  | call {c : Call} {k : Except ε (Out c) → Program Call Out ε α} {p : Program Call Out ε α}
      {s s' : σ} : Reaches (k (exec c s).1) (exec c s).2 p s' → Reaches (call c k) s p s'

variable {exec} {p p' : Program Call Out ε α} {s s' : σ}

namespace Reaches

/-- The rest of the program finishes the run. -/
theorem run_eq (h : Reaches exec p s p' s') : run exec p s = run exec p' s' := by
  induction h with
  | refl => rfl
  | call _ ih => exact ih

theorem cut (h : Reaches exec p s p' s') : Cut exec p s s' := by
  induction h with
  | refl p s => exact .stop p s
  | call _ ih => exact .step ih

theorem meets {rely : σ → σ → Prop} {adm : σ → Call → Prop} {Q : Except ε α → σ → Prop}
    (hrefl : ∀ s, rely s s) (h : Reaches exec p s p' s') (hp : p.Meets exec rely adm Q s) :
    p'.Meets exec rely adm Q s' := by
  induction h with
  | refl => exact hp
  | call _ ih => exact ih (hp _ (hrefl _)).2

end Reaches

/-! ## Interleaving with two calls -/

variable {q : Program Call Out ε β} {ra : Except ε α} {rb : Except ε β}

theorem interleave_done_iff {r : Except ε α} :
    Interleave exec (done r) q s ra rb s' ↔ ra = r ∧ run exec q s = (rb, s') := by
  constructor
  · intro h
    generalize hp : (done r : Program Call Out ε α) = p at h
    induction h with
    | done =>
      cases hp
      exact ⟨rfl, rfl⟩
    | left => cases hp
    | right _ ih => exact ih hp
  · rintro ⟨rfl, hrun⟩
    induction q generalizing s with
    | done r =>
      cases hrun
      exact .done _ _ _
    | call c k ih => exact .right (ih _ hrun)

/-- Where the other program is on its way when the next call is executed. -/
theorem interleave_call_iff {c : Call} {k : Except ε (Out c) → Program Call Out ε α} :
    Interleave exec (call c k) q s ra rb s' ↔ ∃ q' t, Reaches exec q s q' t ∧
      Interleave exec (k (exec c t).1) q' (exec c t).2 ra rb s' := by
  constructor
  · intro h
    generalize hp : call c k = p at h
    induction h with
    | done => cases hp
    | left h =>
      cases hp
      exact ⟨_, _, .refl _ _, h⟩
    | right _ ih =>
      obtain ⟨q', t, hreach, hrest⟩ := ih hp
      exact ⟨q', t, .call hreach, hrest⟩
  · rintro ⟨q', t, hreach, hrest⟩
    induction hreach with
    | refl => exact .left hrest
    | call _ ih => exact .right (ih hrest)

/-! ## Playing a program -/

variable (exec) in
/-- What remains of the program after at most `n` calls, and the state they lead to. -/
def advance : ℕ → Program Call Out ε α → σ → Program Call Out ε α × σ
  | _, done r, s => (done r, s)
  | 0, p, s => (p, s)
  | n + 1, call c k, s => advance n (k (exec c s).1) (exec c s).2

theorem reaches_advance (n : ℕ) (p : Program Call Out ε α) (s : σ) :
    Reaches exec p s (advance exec n p s).1 (advance exec n p s).2 := by
  induction n generalizing p s with
  | zero => cases p <;> exact .refl _ _
  | succ n ih =>
    cases p with
    | done r => exact .refl _ _
    | call c k => exact .call (ih _ _)

end Reaches

/-! ## Reads, and then writes -/

section Issues

variable (exec : (c : Call) → σ → Except ε (Out c) × σ)

/-- The program executes the given calls, whatever they return. Only the last one may fail. -/
inductive Performs : List Call → Program Call Out ε α → Prop where
  | done (r : Except ε α) : Performs [] (done r)
  | last {c : Call} {k : Except ε (Out c) → Program Call Out ε α} :
      (∀ r, ∃ r', k r = done r') → Performs [c] (call c k)
  | call {c : Call} {cs : List Call} {k : Except ε (Out c) → Program Call Out ε α} :
      (∀ s, ∃ a, (exec c s).1 = .ok a) → (∀ a, Performs cs (k (.ok a))) →
        Performs (c :: cs) (call c k)

/-- In `s` the program reads by calls of `reads`, and then it performs the given calls. -/
inductive Issues (reads : Call → Prop) (s : σ) : List Call → Program Call Out ε α → Prop where
  | performs {cs : List Call} {p : Program Call Out ε α} :
      Performs exec cs p → Issues reads s cs p
  | read {c : Call} {cs : List Call} {k : Except ε (Out c) → Program Call Out ε α} :
      reads c → Issues reads s cs (k (exec c s).1) → Issues reads s cs (call c k)

variable {exec} {p p' : Program Call Out ε α} {cs cs' : List Call} {s s' x : σ}
  {reads : Call → Prop}

theorem Performs.run_snd (h : Performs exec cs p) (s : σ) :
    (run exec p s).2 = after exec cs s := by
  induction h generalizing s with
  | done => rfl
  | last h =>
    obtain ⟨r', hr'⟩ := h (exec _ s).1
    rw [run_call, hr']
    rfl
  | call htotal _ ih =>
    obtain ⟨a, ha⟩ := htotal s
    rw [run_call, ha]
    exact ih a _

/-- Stopped anywhere, a program that performs calls has executed the first of them. -/
theorem Performs.reaches (h : Performs exec cs p) (hreach : Reaches exec p s p' s') :
    ∃ cs₁ cs₂, cs = cs₁ ++ cs₂ ∧ s' = after exec cs₁ s ∧ Performs exec cs₂ p' := by
  induction hreach generalizing cs with
  | refl => exact ⟨[], cs, rfl, rfl, h⟩
  | @call c k p' s s' _ ih =>
    cases h with
    | last hlast =>
      obtain ⟨r', hr'⟩ := hlast (exec c s).1
      rw [hr'] at ih
      obtain ⟨cs₁, cs₂, heq, hs', hp'⟩ := ih (.done r')
      exact ⟨c :: cs₁, cs₂, congrArg (c :: ·) heq, hs', hp'⟩
    | call htotal hrest =>
      obtain ⟨a, ha⟩ := htotal s
      obtain ⟨cs₁, cs₂, heq, hs', hp'⟩ := ih (by rw [ha]; exact hrest a)
      exact ⟨c :: cs₁, cs₂, congrArg (c :: ·) heq, hs', hp'⟩

/-- What follows without a call changes nothing. -/
theorem Performs.bind_done {f : α → Program Call Out ε β} (h : Performs exec cs p)
    (hf : ∀ a, ∃ r, f a = Program.done r) : Performs exec cs (p >>= f) := by
  have hdone : ∀ r : Except ε α,
      ∃ r', (Program.done r : Program Call Out ε α).bind f = Program.done r' := by
    intro r
    cases r with
    | ok a => exact hf a
    | error e => exact ⟨.error e, rfl⟩
  change Performs exec cs (p.bind f)
  induction h with
  | done r =>
    obtain ⟨r', hr'⟩ := hdone r
    rw [hr']
    exact .done r'
  | last hlast =>
    refine .last fun r => ?_
    obtain ⟨r', hr'⟩ := hlast r
    obtain ⟨r'', hr''⟩ := hdone r'
    exact ⟨r'', (congrArg (Program.bind · f) hr').trans hr''⟩
  | call htotal _ ih => exact .call htotal ih

theorem Issues.bind_done {f : α → Program Call Out ε β} (h : Issues exec reads s cs p)
    (hf : ∀ a, ∃ r, f a = Program.done r) : Issues exec reads s cs (p >>= f) := by
  change Issues exec reads s cs (p.bind f)
  induction h with
  | performs h => exact .performs (h.bind_done hf)
  | read hc _ ih => exact .read hc ih

/-- The program issues its calls also where it reads the same as in `s`. -/
theorem Issues.run_snd (hreads : ∀ c s, reads c → (exec c s).2 = s)
    (hsame : ∀ c, reads c → (exec c x).1 = (exec c s).1) (h : Issues exec reads s cs p) :
    (run exec p x).2 = after exec cs x := by
  induction h with
  | performs h => exact h.run_snd x
  | read hc _ ih =>
    rw [run_call, hreads _ x hc, hsame _ hc]
    exact ih

/-- Stopped anywhere, the program still issues what remains of its calls. -/
theorem Issues.reaches (hreads : ∀ c s, reads c → (exec c s).2 = s)
    (h : Issues exec reads s cs p) (hreach : Reaches exec p s p' s') :
    ∃ cs₁ cs₂, cs = cs₁ ++ cs₂ ∧ s' = after exec cs₁ s ∧ Issues exec reads s' cs₂ p' := by
  induction h with
  | performs h =>
    obtain ⟨cs₁, cs₂, heq, hs', hp'⟩ := h.reaches hreach
    exact ⟨cs₁, cs₂, heq, hs', .performs hp'⟩
  | @read c cs k hc hrest ih =>
    cases hreach with
    | refl => exact ⟨[], cs, rfl, rfl, .read hc hrest⟩
    | call hreach =>
      rw [hreads c s hc] at hreach
      exact ih hreach

end Issues

/-! ## The end of a run -/

/-- Run without interference, a program ends as it must. -/
theorem Meets.of_run {exec : (c : Call) → σ → Except ε (Out c) × σ} {rely : σ → σ → Prop}
    {adm : σ → Call → Prop} {Q : Except ε α → σ → Prop} {p : Program Call Out ε α} {s : σ}
    (hrefl : ∀ s, rely s s) (h : p.Meets exec rely adm Q s) :
    Q (run exec p s).1 (run exec p s).2 := by
  induction p generalizing s with
  | done r => exact h
  | call c k ih => exact ih _ (h s (hrefl s)).2

/-! ## Reading states that differ -/

section Steady

variable (exec : (c : Call) → σ → Except ε (Out c) × σ) (I : σ → Prop)

/-- The program changes no state with `I`, and goes on in each of them as it does in `s`. -/
def Steady (s : σ) : Program Call Out ε α → Prop
  | done _ => True
  | call c k => (∀ y, I y → (exec c y).2 = y ∧ k (exec c y).1 = k (exec c s).1) ∧
      (k (exec c s).1).Steady s

variable {exec I} {p : Program Call Out ε α} {s y : σ}

namespace Steady

theorem pure (a : α) : (Pure.pure a : Program Call Out ε α).Steady exec I s := trivial

theorem throw (e : ε) : (throw e : Program Call Out ε α).Steady exec I s := trivial

theorem ofExcept (r : Except ε α) :
    (Program.ofExcept r : Program Call Out ε α).Steady exec I s := trivial

theorem bind {f : α → Program Call Out ε β} (hs : I s) (h : p.Steady exec I s)
    (hf : ∀ a, eval exec p s = .ok a → (f a).Steady exec I s) : (p >>= f).Steady exec I s := by
  change (p.bind f).Steady exec I s
  induction p with
  | done r =>
    cases r with
    | ok a => exact hf a rfl
    | error e => exact trivial
  | call c k ih =>
    refine ⟨fun y hy => ⟨(h.1 y hy).1, congrArg (Program.bind · f) (h.1 y hy).2⟩, ?_⟩
    refine ih _ h.2 fun a ha => hf a ?_
    unfold eval
    rw [run_call, (h.1 s hs).1]
    exact ha

/-- A read whose answers are treated alike. -/
theorem bind_invoke {c : Call} {a : Out c} {f : Out c → Program Call Out ε α}
    (ha : (exec c s).1 = .ok a)
    (h : ∀ y, I y → ∃ b, exec c y = (.ok b, y) ∧ f b = f a) (hf : (f a).Steady exec I s) :
    (invoke c >>= f).Steady exec I s := by
  have hs : (done (exec c s).1 : Program Call Out ε (Out c)).bind f = f a :=
    congrArg (fun r => (done r : Program Call Out ε (Out c)).bind f) ha
  refine ⟨fun y hy => ?_, ?_⟩
  · obtain ⟨b, hb, heq⟩ := h y hy
    refine ⟨congrArg Prod.snd hb, Eq.trans ?_ (heq.trans hs.symm)⟩
    exact congrArg (fun r => (done r : Program Call Out ε (Out c)).bind f) (congrArg Prod.fst hb)
  · change ((done (exec c s).1 : Program Call Out ε (Out c)).bind f).Steady exec I s
    rw [hs]
    exact hf

theorem eval_eq (hs : I s) (h : p.Steady exec I s) (hy : I y) : eval exec p y = eval exec p s := by
  induction p with
  | done r => rfl
  | call c k ih =>
    obtain ⟨hstate, hnext⟩ := h.1 y hy
    unfold eval
    rw [run_call, run_call, hstate, hnext, (h.1 s hs).1]
    exact ih _ h.2

/-- The result in one of the states is the result among all of them. -/
theorem meets {rely : σ → σ → Prop} {adm : σ → Call → Prop} (hs : I s)
    (hrely : ∀ y y', I y → rely y y' → I y') {P : Call → Prop} (hp : p.OnlyCalls P)
    (hadm : ∀ y c, P c → adm y c) (h : p.Steady exec I s) (hy : I y) :
    p.Meets exec rely adm (fun r y' => r = eval exec p s ∧ I y') y := by
  induction p generalizing y with
  | done r => exact ⟨rfl, hy⟩
  | call c k ih =>
    intro y' hy'
    obtain ⟨hstate, hnext⟩ := h.1 y' (hrely _ _ hy hy')
    refine ⟨hadm _ _ hp.1, ?_⟩
    rw [hstate, hnext]
    have heval : eval exec (call c k) s = eval exec (k (exec c s).1) s := by
      unfold eval
      rw [run_call, (h.1 s hs).1]
    rw [heval]
    exact ih _ (hp.2 _) h.2 (hrely _ _ hy hy')

end Steady

end Steady

end Program
