import Mathlib.Data.Nat.Notation
import Txoscope.Lib.Program

/-!
# Programs over a store that faults

`faulting exec` is the store `exec` with a pattern of faults ahead of it: each call uses up one entry
of the pattern, and where the entry is a fault the call returns it and does nothing. A program that
`Escalates` faults hands every one of them to its caller at once, so a faulty run of it is a run cut
short (`run_faulting`). `UntilClean` repeats a program until a run meets no fault; what a run cut
short keeps, the repetition keeps (`UntilClean.of_invariant`).
-/

namespace Program

variable {Call : Type} {Out : Call → Type} {ε α β σ : Type}

/-! ## Programs that escalate -/

/-- A fault that a call returns becomes the result of the program. -/
def Escalates (fault : ε → Prop) : Program Call Out ε α → Prop
  | done _ => True
  | call _ k => (∀ e, fault e → k (.error e) = done (.error e)) ∧ ∀ r, (k r).Escalates fault

namespace Escalates

variable {fault : ε → Prop}

theorem pure (a : α) : (Pure.pure a : Program Call Out ε α).Escalates fault := trivial

theorem throw (e : ε) : (throw e : Program Call Out ε α).Escalates fault := trivial

theorem invoke (c : Call) : (Program.invoke c : Program Call Out ε (Out c)).Escalates fault :=
  ⟨fun _ _ => rfl, fun _ => trivial⟩

theorem bind {p : Program Call Out ε α} {f : α → Program Call Out ε β} (hp : p.Escalates fault)
    (hf : ∀ a, (f a).Escalates fault) : (p >>= f).Escalates fault := by
  change (p.bind f).Escalates fault
  induction p with
  | done r =>
    cases r with
    | ok a => exact hf a
    | error e => trivial
  | call c k ih =>
    refine ⟨fun e he => ?_, fun r => ih r (hp.2 r)⟩
    change (k (.error e)).bind f = _
    rw [hp.1 e he]
    rfl

/-- A handler escalates if it passes faults on. -/
theorem attempt_bind {p : Program Call Out ε α} {f : Except ε α → Program Call Out ε β}
    (hp : p.Escalates fault) (hf : ∀ r, (f r).Escalates fault)
    (hpass : ∀ e, fault e → f (.error e) = done (.error e)) :
    (p.attempt >>= f).Escalates fault := by
  change (p.attempt.bind f).Escalates fault
  induction p with
  | done r => exact hf r
  | call c k ih =>
    refine ⟨fun e he => ?_, fun r => ih r (hp.2 r)⟩
    change (k (.error e)).attempt.bind f = _
    rw [hp.1 e he]
    exact hpass e he

theorem forEach {f : β → Program Call Out ε Unit} (hf : ∀ b, (f b).Escalates fault)
    (bs : List β) : (Program.forEach f bs).Escalates fault := by
  induction bs with
  | nil => trivial
  | cons b bs ih => exact bind (hf b) fun _ => ih

end Escalates

/-! ## Faulty runs -/

section Run

variable (exec : (c : Call) → σ → Except ε (Out c) × σ)

/-- The store with a pattern of faults ahead of it. Past the pattern it works. -/
def faulting (c : Call) : σ × List (Option ε) → Except ε (Out c) × (σ × List (Option ε))
  | (s, some e :: faults) => (.error e, (s, faults))
  | (s, none :: faults) => ((exec c s).1, ((exec c s).2, faults))
  | (s, []) => ((exec c s).1, ((exec c s).2, []))

/-- The number of faults in a pattern. -/
def faultsAhead : List (Option ε) → ℕ
  | [] => 0
  | none :: faults => faultsAhead faults
  | some _ :: faults => faultsAhead faults + 1

/-- `Before exec p s s'`: the program started in `s` is about to issue a call in `s'`. -/
inductive Before : Program Call Out ε α → σ → σ → Prop where
  | here {c : Call} {k : Except ε (Out c) → Program Call Out ε α} {s : σ} : Before (call c k) s s
  | step {c : Call} {k : Except ε (Out c) → Program Call Out ε α} {s s' : σ} :
      Before (k (exec c s).1) (exec c s).2 s' → Before (call c k) s s'

variable {exec}

theorem Before.steps {env : σ → σ → Prop} {p : Program Call Out ε α} {s s' : σ}
    (h : Before exec p s s') : Steps exec (fun _ _ => True) env s s' := by
  induction h with
  | here => exact .refl
  | step _ ih => exact Relation.ReflTransGen.head (.call _ trivial) ih

theorem Before.invoke {c : Call} {s s' : σ}
    (h : Before exec (Program.invoke c : Program Call Out ε (Out c)) s s') : s' = s := by
  cases h with
  | here => rfl
  | step h => cases h

theorem not_before_done {r : Except ε α} {s s' : σ} :
    ¬Before exec (done r : Program Call Out ε α) s s' := by
  intro h
  cases h

/-- Either the first program is about to issue a call, or it has returned. -/
theorem Before.bind {p : Program Call Out ε α} {f : α → Program Call Out ε β} {s s' : σ}
    (h : Before exec (p >>= f) s s') : Before exec p s s' ∨
      ∃ a s₁, run exec p s = (.ok a, s₁) ∧ Before exec (f a) s₁ s' := by
  change Before exec (p.bind f) s s' at h
  induction p generalizing s with
  | done r =>
    cases r with
    | ok a => exact .inr ⟨a, s, rfl, h⟩
    | error e => cases h
  | call c k ih =>
    cases h with
    | here => exact .inl .here
    | step h =>
      rcases ih _ h with h | ⟨a, s₁, hrun, h⟩
      · exact .inl (.step h)
      · exact .inr ⟨a, s₁, hrun, h⟩

theorem Before.of_attempt {p : Program Call Out ε α} {s s' : σ}
    (h : Before exec p.attempt s s') : Before exec p s s' := by
  induction p generalizing s with
  | done r => cases h
  | call c k ih =>
    cases h with
    | here => exact .here
    | step h => exact .step (ih _ h)

/-- Reads are issued where the program starts. -/
theorem Before.of_reads {P : Call → Prop} (hreads : ∀ c s, P c → (exec c s).2 = s)
    {p : Program Call Out ε α} (hp : p.OnlyCalls P) {s s' : σ} (h : Before exec p s s') :
    s' = s := by
  induction h with
  | here => rfl
  | step _ ih => exact (ih (hp.2 _)).trans (hreads _ _ hp.1)

variable (exec) in
/-- A run over a faulting store meets no fault, or is cut short by one. -/
theorem run_faulting {fault : ε → Prop} {p : Program Call Out ε α} (hp : p.Escalates fault) (s : σ)
    {faults : List (Option ε)} (hfaults : ∀ e, some e ∈ faults → fault e) :
    (faultsAhead (run (faulting exec) p (s, faults)).2.2 = faultsAhead faults ∧
      (run (faulting exec) p (s, faults)).1 = (run exec p s).1 ∧
      (run (faulting exec) p (s, faults)).2.1 = (run exec p s).2) ∨
    (faultsAhead (run (faulting exec) p (s, faults)).2.2 < faultsAhead faults ∧
      (∃ e, fault e ∧ (run (faulting exec) p (s, faults)).1 = .error e) ∧
      Before exec p s (run (faulting exec) p (s, faults)).2.1) := by
  induction p generalizing s faults with
  | done r => exact .inl ⟨rfl, rfl, rfl⟩
  | call c k ih =>
    cases faults with
    | nil =>
      rcases ih (exec c s).1 (hp.2 _) (exec c s).2 hfaults with h | h
      · exact .inl h
      · exact (Nat.not_lt_zero _ h.1).elim
    | cons first faults =>
      have hrest : ∀ e, some e ∈ faults → fault e := fun e he =>
        hfaults e (List.mem_cons_of_mem _ he)
      cases first with
      | none =>
        rcases ih (exec c s).1 (hp.2 _) (exec c s).2 hrest with h | ⟨hahead, herror, hbefore⟩
        · exact .inl h
        · exact .inr ⟨hahead, herror, .step hbefore⟩
      | some e =>
        have he : fault e := hfaults e List.mem_cons_self
        have hrun : run (faulting exec) (call c k) (s, some e :: faults) =
            (.error e, (s, faults)) := by
          rw [run_call]
          exact congrArg (fun p => run (faulting exec) p (s, faults)) (hp.1 e he)
        rw [hrun]
        exact .inr ⟨Nat.lt_succ_self _, ⟨e, he, rfl⟩, .here⟩

/-- The faults that are left were ahead before. -/
theorem mem_faults_run {p : Program Call Out ε α} {s : σ} {faults : List (Option ε)} {e : Option ε}
    (h : e ∈ (run (faulting exec) p (s, faults)).2.2) : e ∈ faults := by
  induction p generalizing s faults with
  | done r => exact h
  | call c k ih =>
    match faults, h with
    | [], h => exact ih _ h
    | none :: faults, h => exact List.mem_cons_of_mem _ (ih _ h)
    | some e' :: faults, h => exact List.mem_cons_of_mem _ (ih _ h)

/-! ## Repeating a program -/

variable (exec) in
/-- The program is repeated until one of its runs meets no fault. -/
inductive UntilClean (p : Program Call Out ε α) :
    σ × List (Option ε) → Except ε α × (σ × List (Option ε)) → Prop where
  | clean {x : σ × List (Option ε)} :
      faultsAhead (run (faulting exec) p x).2.2 = faultsAhead x.2 →
        UntilClean p x (run (faulting exec) p x)
  | again {x : σ × List (Option ε)} {y : Except ε α × (σ × List (Option ε))} :
      faultsAhead (run (faulting exec) p x).2.2 < faultsAhead x.2 →
        UntilClean p (run (faulting exec) p x).2 y → UntilClean p x y

variable {fault : ε → Prop} {p : Program Call Out ε α}

/-- A finite pattern is used up: some run meets no fault. -/
theorem exists_untilClean (hp : p.Escalates fault) (s : σ) {faults : List (Option ε)}
    (hfaults : ∀ e, some e ∈ faults → fault e) : ∃ y, UntilClean exec p (s, faults) y := by
  obtain ⟨n, hn⟩ : ∃ n, faultsAhead faults = n := ⟨_, rfl⟩
  induction n using Nat.strongRecOn generalizing s faults with
  | _ n ih =>
    rcases run_faulting exec hp s hfaults with ⟨hahead, -⟩ | ⟨hahead, -⟩
    · exact ⟨_, .clean hahead⟩
    · obtain ⟨y, hy⟩ := ih _ (hn ▸ hahead) (run (faulting exec) p (s, faults)).2.1
        (fun e he => hfaults e (mem_faults_run he)) rfl
      exact ⟨y, .again hahead hy⟩

/-- What a run cut short keeps holds where the last run starts. -/
theorem UntilClean.of_invariant {I : σ → Prop} (hp : p.Escalates fault)
    (hcut : ∀ s s', I s → Before exec p s s' → I s') {s : σ} {faults : List (Option ε)}
    (hfaults : ∀ e, some e ∈ faults → fault e) (hs : I s)
    {y : Except ε α × (σ × List (Option ε))} (h : UntilClean exec p (s, faults) y) :
    ∃ s', I s' ∧ y.1 = (run exec p s').1 ∧ y.2.1 = (run exec p s').2 := by
  obtain ⟨x, hx⟩ : ∃ x, x = (s, faults) := ⟨_, rfl⟩
  rw [← hx] at h
  induction h generalizing s faults with
  | clean hclean =>
    subst hx
    rcases run_faulting exec hp s hfaults with ⟨-, hresult⟩ | ⟨hahead, -⟩
    · exact ⟨s, hs, hresult⟩
    · exact (Nat.ne_of_lt hahead hclean).elim
  | again hagain _ ih =>
    subst hx
    rcases run_faulting exec hp s hfaults with ⟨hclean, -⟩ | ⟨-, -, hbefore⟩
    · exact (Nat.ne_of_lt hagain hclean).elim
    · exact ih (fun e he => hfaults e (mem_faults_run he)) (hcut _ _ hs hbefore) rfl

end Run

end Program
