import Mathlib.Data.Set.Basic
import Txoscope.Lib.Program

/-!
# Clients that keep to a contract

What a client may call can depend on what earlier answers have told it. A `Contract` says which
calls are allowed to a client that knows a set of facts, and which facts an answer tells. A program
`Obeys` it if every call it can issue is allowed, whatever the answers are; nothing is said there
about the store.

`Served` are the runs of any number of clients of a store that may answer a call in more than one
way. If what the answers tell is true and stays true, clients that obey the contract only make calls
that are allowed by what is true of the store (`answered_of_served`). `Faulty` is such a store: a
call may fail before it takes effect, or after.
-/

/-- Which calls are allowed to whom, and what their answers tell. -/
structure Contract (Call : Type) (Out : Call → Type) (ε Fact : Type) where
  allows : Set Fact → Call → Prop
  tells : (c : Call) → Except ε (Out c) → Set Fact
  mono : ∀ {K K' : Set Fact}, K ⊆ K' → ∀ c, allows K c → allows K' c

namespace Program

variable {Call Call' : Type} {Out : Call → Type} {Out' : Call' → Type} {ε α β σ Fact : Type}

/-! ## Obeying -/

section Obeys

variable (C : Contract Call Out ε Fact)

/-- Every call the program can issue is allowed by what it knows then, and `Q` holds of its result
and of what it knows in the end. -/
def Obeys (Q : Except ε α → Set Fact → Prop) : Program Call Out ε α → Set Fact → Prop
  | done r, K => Q r K
  | call c k, K => C.allows K c ∧ ∀ r, (k r).Obeys Q (K ∪ C.tells c r)

/-- Every call the program can issue is allowed by what it knows then. -/
abbrev KeepsTo (p : Program Call Out ε α) (K : Set Fact) : Prop := p.Obeys C (fun _ _ => True) K

variable {C} {K K' : Set Fact} {p : Program Call Out ε α}

namespace Obeys

variable {Q : Except ε α → Set Fact → Prop}

theorem conseq {Q' : Except ε α → Set Fact → Prop} (hQ : ∀ r K, Q r K → Q' r K)
    (h : p.Obeys C Q K) : p.Obeys C Q' K := by
  induction p generalizing K with
  | done r => exact hQ r K h
  | call c k ih => exact ⟨h.1, fun r => ih r (h.2 r)⟩

/-- Who knows more may do as much. -/
theorem mono (hQ : ∀ r {K K' : Set Fact}, K ⊆ K' → Q r K → Q r K') (hK : K ⊆ K')
    (h : p.Obeys C Q K) : p.Obeys C Q K' := by
  induction p generalizing K K' with
  | done r => exact hQ r hK h
  | call c k ih => exact ⟨C.mono hK c h.1, fun r => ih r (Set.union_subset_union_left _ hK) (h.2 r)⟩

theorem pure {a : α} (h : Q (.ok a) K) :
    (Pure.pure a : Program Call Out ε α).Obeys C Q K := h

theorem invoke {c : Call} {Q : Except ε (Out c) → Set Fact → Prop} (h : C.allows K c)
    (hQ : ∀ r, Q r (K ∪ C.tells c r)) :
    (Program.invoke c : Program Call Out ε (Out c)).Obeys C Q K := ⟨h, hQ⟩

/-- Sequencing: what the first program ends with is what the second one starts from. -/
theorem bind {Q : Except ε β → Set Fact → Prop} {f : α → Program Call Out ε β}
    (h : p.Obeys C (fun r K =>
      match r with
      | .ok a => (f a).Obeys C Q K
      | .error e => Q (.error e) K) K) : (p >>= f).Obeys C Q K := by
  change (p.bind f).Obeys C Q K
  induction p generalizing K with
  | done r => cases r <;> exact h
  | call c k ih => exact ⟨h.1, fun r => ih r (h.2 r)⟩

theorem attempt {Q : Except ε (Except ε α) → Set Fact → Prop}
    (h : p.Obeys C (fun r => Q (.ok r)) K) : p.attempt.Obeys C Q K := by
  induction p generalizing K with
  | done r => exact h
  | call c k ih => exact ⟨h.1, fun r => ih r (h.2 r)⟩

/-- What handles an error knows what the program knew that ended with it. -/
theorem handle {Q : Except ε α → Set Fact → Prop} {handler : ε → Program Call Out ε α}
    (h : p.Obeys C (fun r K =>
      match r with
      | .ok a => Q (.ok a) K
      | .error e => (handler e).Obeys C Q K) K) : (p.handle handler).Obeys C Q K := by
  induction p generalizing K with
  | done r => cases r <;> exact h
  | call c k ih => exact ⟨h.1, fun r => ih r (h.2 r)⟩

/-- What is known stays known. -/
theorem keeping (h : p.Obeys C Q K) : p.Obeys C (fun r K' => Q r K' ∧ K ⊆ K') K := by
  induction p generalizing K with
  | done r => exact ⟨h, subset_rfl⟩
  | call c k ih =>
    refine ⟨h.1, fun r => (ih r (h.2 r)).conseq fun r' K' hQ => ⟨hQ.1, ?_⟩⟩
    exact Set.subset_union_left.trans hQ.2

/-- A loop that is not left early has learned what each of its rounds learns. -/
theorem forEach {f : β → Program Call Out ε Unit} {learns : β → Set Fact} {bs : List β}
    (hf : ∀ b ∈ bs, ∀ K, (f b).Obeys C (fun r K' => r = .ok () → learns b ⊆ K') K)
    (K : Set Fact) :
    (Program.forEach f bs).Obeys C (fun r K' => r = .ok () → ∀ b ∈ bs, learns b ⊆ K') K := by
  induction bs generalizing K with
  | nil => exact fun _ => List.forall_mem_nil _
  | cons b bs ih =>
    refine Obeys.bind ((hf b List.mem_cons_self K).conseq fun r K' hb => ?_)
    cases r with
    | error e => exact fun h => (nomatch h)
    | ok u =>
      have hrest := ih (fun b hb => hf b (List.mem_cons_of_mem _ hb)) K'
      exact hrest.keeping.conseq fun r K'' hK hr =>
        List.forall_mem_cons.mpr ⟨(hb rfl).trans hK.2, hK.1 hr⟩

/-- Calls that are allowed to everybody. -/
theorem of_onlyCalls {P : Call → Prop} (hP : ∀ c, P c → ∀ K, C.allows K c)
    (hQ : ∀ r K, Q r K) (hp : p.OnlyCalls P) : p.Obeys C Q K := by
  induction p generalizing K with
  | done r => exact hQ r K
  | call c k ih => exact ⟨hP c hp.1 K, fun r => ih r (hp.2 r)⟩

end Obeys

namespace KeepsTo

theorem mono (hK : K ⊆ K') (h : p.KeepsTo C K) : p.KeepsTo C K' :=
  Obeys.mono (fun _ _ _ _ _ => trivial) hK h

theorem pure (a : α) : (Pure.pure a : Program Call Out ε α).KeepsTo C K := trivial

theorem throw (e : ε) : (throw e : Program Call Out ε α).KeepsTo C K := trivial

theorem invoke {c : Call} (h : C.allows K c) :
    (Program.invoke c : Program Call Out ε (Out c)).KeepsTo C K := ⟨h, fun _ => trivial⟩

theorem bind {f : α → Program Call Out ε β} (hp : p.KeepsTo C K)
    (hf : ∀ a, (f a).KeepsTo C K) : (p >>= f).KeepsTo C K := by
  refine Obeys.bind (hp.keeping.conseq fun r K' hK => ?_)
  cases r with
  | ok a => exact (hf a).mono hK.2
  | error e => trivial

/-- One call, and what is done by who has been told its answer. -/
theorem bind_invoke {c : Call} {f : Out c → Program Call Out ε β} (h : C.allows K c)
    (hf : ∀ a, (f a).KeepsTo C (K ∪ C.tells c (.ok a))) :
    (Program.invoke c >>= f).KeepsTo C K := by
  refine Obeys.bind (.invoke h fun r => ?_)
  cases r with
  | ok a => exact hf a
  | error e => trivial

theorem attempt (h : p.KeepsTo C K) : p.attempt.KeepsTo C K := Obeys.attempt h

theorem of_onlyCalls {P : Call → Prop} (hP : ∀ c, P c → ∀ K, C.allows K c)
    (hp : p.OnlyCalls P) : p.KeepsTo C K := Obeys.of_onlyCalls hP (fun _ _ => trivial) hp

end KeepsTo

end Obeys

/-! ## Replacing the calls -/

/-- Every call replaced by a program that answers it. -/
def translate (t : (c : Call) → Program Call' Out' ε (Out c)) :
    Program Call Out ε α → Program Call' Out' ε α
  | done r => done r
  | call c k => (t c).attempt >>= fun r => (k r).translate t

/-- A client obeys the contract of the calls its calls are made of, if each of them does and tells
what it told before. -/
theorem KeepsTo.translate {C : Contract Call Out ε Fact} {C' : Contract Call' Out' ε Fact}
    {t : (c : Call) → Program Call' Out' ε (Out c)}
    (ht : ∀ c K, C.allows K c → (t c).Obeys C' (fun r K' => C.tells c r ⊆ K') K)
    {p : Program Call Out ε α} {K : Set Fact} (h : p.KeepsTo C K) :
    (p.translate t).KeepsTo C' K := by
  induction p generalizing K with
  | done r => trivial
  | call c k ih =>
    refine Obeys.bind (Obeys.attempt ((ht c K h.1).keeping.conseq fun r K' hK => ?_))
    exact (ih r (h.2 r)).mono (Set.union_subset hK.2 hK.1)

/-! ## Runs -/

/-- Any number of clients of a store that answers `c` in state `s` with any `r`, moving to any `s'`,
for which `answers s c r s'` holds: a method is started, the next call of a client is answered, a
client is dropped between two calls, or the environment moves. -/
inductive Served (answers : σ → (c : Call) → Except ε (Out c) → σ → Prop)
    (methods : Program Call Out ε Unit → Prop) (env : σ → σ → Prop) :
    σ × List (Program Call Out ε Unit) → σ × List (Program Call Out ε Unit) → Prop where
  | start {s : σ} {ps : List (Program Call Out ε Unit)} {p : Program Call Out ε Unit} :
      methods p → Served answers methods env (s, ps) (s, p :: ps)
  | call {s s' : σ} {ps qs : List (Program Call Out ε Unit)} {c : Call}
      {k : Except ε (Out c) → Program Call Out ε Unit} {r : Except ε (Out c)} :
      answers s c r s' → Served answers methods env (s, ps ++ call c k :: qs) (s', ps ++ k r :: qs)
  | drop {s : σ} {ps qs : List (Program Call Out ε Unit)} {p : Program Call Out ε Unit} :
      Served answers methods env (s, ps ++ p :: qs) (s, ps ++ qs)
  | env {s s' : σ} {ps : List (Program Call Out ε Unit)} :
      env s s' → Served answers methods env (s, ps) (s', ps)

/-- A store that answers more has every step of one that answers less. -/
theorem Served.mono {answers answers' : σ → (c : Call) → Except ε (Out c) → σ → Prop}
    {methods : Program Call Out ε Unit → Prop} {env : σ → σ → Prop}
    (hanswers : ∀ {s c r s'}, answers s c r s' → answers' s c r s')
    {x y : σ × List (Program Call Out ε Unit)} (h : Served answers methods env x y) :
    Served answers' methods env x y := by
  cases h with
  | start hp => exact .start hp
  | call hanswer => exact .call (hanswers hanswer)
  | drop => exact .drop
  | env henv => exact .env henv

/-- One admitted call and its answer, or a step of the environment. -/
inductive Answered (answers : σ → (c : Call) → Except ε (Out c) → σ → Prop)
    (adm : σ → Call → Prop) (env : σ → σ → Prop) : σ → σ → Prop where
  | call {s s' : σ} (c : Call) (r : Except ε (Out c)) :
      adm s c → answers s c r s' → Answered answers adm env s s'
  | env {s s' : σ} : env s s' → Answered answers adm env s s'

variable {answers : σ → (c : Call) → Except ε (Out c) → σ → Prop}

/-- Clients that obey a contract only make calls that are allowed by what is true of the store. -/
theorem answered_of_served {C : Contract Call Out ε Fact} {truths : σ → Set Fact} {I : σ → Prop}
    {methods : Program Call Out ε Unit → Prop} {env : σ → σ → Prop}
    (hcall : ∀ s c r s', I s → C.allows (truths s) c → answers s c r s' →
      I s' ∧ truths s ∪ C.tells c r ⊆ truths s')
    (henv : ∀ s s', I s → env s s' → I s' ∧ truths s ⊆ truths s')
    (hmethods : ∀ p, methods p → p.KeepsTo C ∅)
    {x y : σ × List (Program Call Out ε Unit)}
    (h : Relation.ReflTransGen (Served answers methods env) x y) (hI : I x.1)
    (hx : ∀ p ∈ x.2, p.KeepsTo C (truths x.1)) :
    Relation.ReflTransGen (Answered answers (fun s c => C.allows (truths s) c) env) x.1 y.1 ∧
      I y.1 ∧ ∀ p ∈ y.2, p.KeepsTo C (truths y.1) := by
  induction h with
  | refl => exact ⟨.refl, hI, hx⟩
  | tail _ hstep ih =>
    obtain ⟨hrun, hinv, hall⟩ := ih
    cases hstep with
    | start hp =>
      refine ⟨hrun, hinv, List.forall_mem_cons.mpr ⟨?_, hall⟩⟩
      exact (hmethods _ hp).mono (Set.empty_subset _)
    | call hanswer =>
      have hhere := hall _ (List.mem_append_right _ List.mem_cons_self)
      obtain ⟨hinv', hknown⟩ := hcall _ _ _ _ hinv hhere.1 hanswer
      refine ⟨hrun.tail (.call _ _ hhere.1 hanswer), hinv', fun p hp => ?_⟩
      have hbefore := Set.subset_union_left.trans hknown
      rcases List.mem_append.mp hp with hp | hp
      · exact (hall p (List.mem_append_left _ hp)).mono hbefore
      · rcases List.mem_cons.mp hp with rfl | hp
        · exact KeepsTo.mono hknown (hhere.2 _)
        · exact (hall p (List.mem_append_right _ (List.mem_cons_of_mem _ hp))).mono hbefore
    | drop =>
      refine ⟨hrun, hinv, fun p hp => hall p ?_⟩
      rcases List.mem_append.mp hp with hp | hp
      · exact List.mem_append_left _ hp
      · exact List.mem_append_right _ (List.mem_cons_of_mem _ hp)
    | env he =>
      obtain ⟨hinv', hknown⟩ := henv _ _ hinv he
      exact ⟨hrun.tail (.env he), hinv', fun p hp => (hall p hp).mono hknown⟩

/-! ## Stores that fail -/

/-- A store whose calls may fail with a fault, before they take effect or after. -/
inductive Faulty (exec : (c : Call) → σ → Except ε (Out c) × σ) (fault : ε → Prop) (s : σ)
    (c : Call) : Except ε (Out c) → σ → Prop where
  | answered : Faulty exec fault s c (exec c s).1 (exec c s).2
  | refused (e : ε) : fault e → Faulty exec fault s c (.error e) s
  | lost (e : ε) : fault e → Faulty exec fault s c (.error e) (exec c s).2

/-! ## Clients that are left alone -/

section Within

variable (exec : (c : Call) → σ → Except ε (Out c) × σ) (ok : σ → Call → Prop)

/-- Every call of the program run alone is one that `ok` accepts. -/
def Within : Program Call Out ε α → σ → Prop
  | done _, _ => True
  | call c k, s => ok s c ∧ (k (exec c s).1).Within (exec c s).2

instance Within.decidable [∀ s c, Decidable (ok s c)] :
    (p : Program Call Out ε α) → (s : σ) → Decidable (p.Within exec ok s)
  | done _, _ => isTrue trivial
  | call c k, s =>
    have := Within.decidable (k (exec c s).1) (exec c s).2
    inferInstanceAs (Decidable (ok s c ∧ (k (exec c s).1).Within exec ok (exec c s).2))

variable {exec ok}

/-- A client that no other disturbs is served to its end. -/
theorem served_within {methods : Program Call Out ε Unit → Prop} {env : σ → σ → Prop}
    (hanswer : ∀ s c, ok s c → answers s c (exec c s).1 (exec c s).2)
    {p : Program Call Out ε Unit} (hp : methods p) {s : σ} (h : p.Within exec ok s) :
    Relation.ReflTransGen (Served answers methods env) (s, []) ((run exec p s).2, []) := by
  refine .head (.start hp) ?_
  clear hp
  induction p generalizing s with
  | done r =>
    have hdrop : Served answers methods env (s, [] ++ done r :: []) (s, [] ++ []) := .drop
    exact .single hdrop
  | call c k ih =>
    have hcall : Served answers methods env (s, [] ++ call c k :: [])
        ((exec c s).2, [] ++ k (exec c s).1 :: []) := .call (hanswer s c h.1)
    exact .head hcall (ih _ h.2)

/-- A client that no other disturbs, and that stops at some point. -/
theorem served_cut {methods : Program Call Out ε Unit → Prop} {env : σ → σ → Prop}
    (hanswer : ∀ s c, answers s c (exec c s).1 (exec c s).2)
    {p : Program Call Out ε Unit} (hp : methods p) {s s' : σ} (h : Cut exec p s s') :
    Relation.ReflTransGen (Served answers methods env) (s, []) (s', []) := by
  refine .head (.start hp) ?_
  clear hp
  induction h with
  | stop p s =>
    have hdrop : Served answers methods env (s, [] ++ p :: []) (s, [] ++ []) := .drop
    exact .single hdrop
  | @step c k s s' hcut ih =>
    have hcall : Served answers methods env (s, [] ++ call c k :: [])
        ((exec c s).2, [] ++ k (exec c s).1 :: []) := .call (hanswer s c)
    exact .head hcall ih

end Within

end Program
