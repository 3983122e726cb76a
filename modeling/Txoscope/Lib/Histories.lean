import Mathlib.Data.Nat.Notation
import Txoscope.Lib.Program

/-!
# Clients that remember their calls

A `Participant` is a client in flight, with the label it was started under and its history: the
calls it has made, each with the state it was executed in. `Together` interleaves any number of
participants call by call. `recording` is the store that keeps such a history next to its state, so
that the rule of pre- and postconditions can speak of what a client has read before
(`meets_together`).
-/

namespace Program

variable {Call : Type} {Out : Call → Type} {ε α Λ σ : Type}

/-- The calls made, in order, each with the state it was executed in. -/
abbrev History (σ Call : Type) := List (σ × Call)

/-- A client in flight. -/
structure Participant (Λ Call : Type) (Out : Call → Type) (ε σ : Type) where
  label : Λ
  history : History σ Call
  rest : Program Call Out ε Unit

section Together

variable (exec : (c : Call) → σ → Except ε (Out c) × σ)

/-- Any number of participants: a client is started under its label, a participant executes its
next call, is dropped between two calls, or the environment moves. -/
inductive Together (methods : Λ → Program Call Out ε Unit → Prop) (env : σ → σ → Prop) :
    σ × List (Participant Λ Call Out ε σ) → σ × List (Participant Λ Call Out ε σ) → Prop where
  | start {s : σ} {ps : List (Participant Λ Call Out ε σ)} {l : Λ}
      {p : Program Call Out ε Unit} :
      methods l p → Together methods env (s, ps) (s, ⟨l, [], p⟩ :: ps)
  | call {s : σ} {ps qs : List (Participant Λ Call Out ε σ)} {l : Λ} {h : History σ Call}
      {c : Call} {k : Except ε (Out c) → Program Call Out ε Unit} :
      Together methods env (s, ps ++ ⟨l, h, call c k⟩ :: qs)
        ((exec c s).2, ps ++ ⟨l, h ++ [(s, c)], k (exec c s).1⟩ :: qs)
  | drop {s : σ} {ps qs : List (Participant Λ Call Out ε σ)} {q : Participant Λ Call Out ε σ} :
      Together methods env (s, ps ++ q :: qs) (s, ps ++ qs)
  | env {s s' : σ} {ps : List (Participant Λ Call Out ε σ)} :
      env s s' → Together methods env (s, ps) (s', ps)

/-- A participant started under `l`, with the history `h`, executes the call `c`. -/
def Executes (l : Λ) (h : History σ Call) (c : Call)
    (x y : σ × List (Participant Λ Call Out ε σ)) : Prop :=
  ∃ ps qs k, x.2 = ps ++ ⟨l, h, call c k⟩ :: qs ∧
    y = ((exec c x.1).2, ps ++ ⟨l, h ++ [(x.1, c)], k (exec c x.1).1⟩ :: qs)

variable {exec}

theorem Executes.state {l : Λ} {h : History σ Call} {c : Call}
    {x y : σ × List (Participant Λ Call Out ε σ)} (he : Executes exec l h c x y) :
    y.1 = (exec c x.1).2 := by
  obtain ⟨ps, qs, k, -, rfl⟩ := he
  rfl

/-- A step either is a call of a participant or leaves the state to the environment. -/
theorem Together.cases_state {methods : Λ → Program Call Out ε Unit → Prop} {env : σ → σ → Prop}
    {x y : σ × List (Participant Λ Call Out ε σ)} (h : Together exec methods env x y) :
    (∃ l hist c, Executes exec l hist c x y) ∨ y.1 = x.1 ∨ env x.1 y.1 := by
  cases h with
  | start | drop => exact .inr (.inl rfl)
  | call => exact .inl ⟨_, _, _, _, _, _, rfl, rfl⟩
  | env he => exact .inr (.inr he)

end Together

/-! ## Recording -/

section Recording

variable (exec : (c : Call) → σ → Except ε (Out c) × σ)

/-- The store with a history next to its state. -/
def recording (c : Call) (x : σ × History σ Call) : Except ε (Out c) × (σ × History σ Call) :=
  ((exec c x.1).1, (exec c x.1).2, x.2 ++ [(x.1, c)])

/-- Interference leaves the history alone. -/
def Apart (rely : σ → σ → Prop) (x y : σ × History σ Call) : Prop := rely x.1 y.1 ∧ y.2 = x.2

variable {exec} {rely : σ → σ → Prop}

/-- What holds without a history holds with one. -/
theorem Meets.recording {adm : σ → Call → Prop} {Q : Except ε α → σ → Prop}
    {p : Program Call Out ε α} {s : σ} (hp : p.Meets exec rely adm Q s) (h : History σ Call) :
    p.Meets (recording exec) (Apart rely) (fun x c => adm x.1 c) (fun r x => Q r x.1) (s, h) := by
  induction p generalizing s h with
  | done r => exact hp
  | call c k ih => exact fun x hx => ⟨(hp x.1 hx.1).1, ih _ (hp x.1 hx.1).2 _⟩

variable (rely) in
/-- Participants whose methods tolerate each other's calls meet their conditions all along. -/
theorem meets_together {methods : Λ → Program Call Out ε Unit → Prop} {env : σ → σ → Prop}
    (I : σ → Prop) (adm : Λ → σ × History σ Call → Call → Prop) (hrefl : ∀ s, rely s s)
    (htrans : ∀ s s' s'', rely s s' → rely s' s'' → rely s s'')
    (hcall : ∀ l s h c, I s → adm l (s, h) c → rely s (exec c s).2 ∧ I (exec c s).2)
    (henv : ∀ s s', I s → env s s' → rely s s' ∧ I s')
    (hmethods : ∀ l p, methods l p → ∀ s, I s →
      p.Meets (Program.recording exec) (Apart rely) (adm l) (fun _ _ => True) (s, []))
    {x y : σ × List (Participant Λ Call Out ε σ)}
    (h : Relation.ReflTransGen (Together exec methods env) x y) (hI : I x.1)
    (hx : ∀ q ∈ x.2, q.rest.Meets (Program.recording exec) (Apart rely) (adm q.label)
      (fun _ _ => True) (x.1, q.history)) :
    I y.1 ∧ ∀ q ∈ y.2, q.rest.Meets (Program.recording exec) (Apart rely) (adm q.label)
      (fun _ _ => True) (y.1, q.history) := by
  -- a participant that did not move tolerates what happened
  have hmoved : ∀ {q : Participant Λ Call Out ε σ} {s s' : σ},
      q.rest.Meets (Program.recording exec) (Apart rely) (adm q.label) (fun _ _ => True)
        (s, q.history) → rely s s' →
      q.rest.Meets (Program.recording exec) (Apart rely) (adm q.label) (fun _ _ => True)
        (s', q.history) := fun hq hs =>
    hq.rely_left (fun _ _ _ h h' => ⟨htrans _ _ _ h.1 h'.1, h'.2.trans h.2⟩)
      (fun _ _ _ _ _ => trivial) ⟨hs, rfl⟩
  induction h with
  | refl => exact ⟨hI, hx⟩
  | tail _ hstep ih =>
    obtain ⟨hinv, hall⟩ := ih
    cases hstep with
    | start hp => exact ⟨hinv, List.forall_mem_cons.mpr ⟨hmethods _ _ hp _ hinv, hall⟩⟩
    | call =>
      have hhere := hall _ (List.mem_append_right _ List.mem_cons_self) _ ⟨hrefl _, rfl⟩
      obtain ⟨hs, hinv'⟩ := hcall _ _ _ _ hinv hhere.1
      refine ⟨hinv', fun q hq => ?_⟩
      rcases List.mem_append.mp hq with hq | hq
      · exact hmoved (hall q (List.mem_append_left _ hq)) hs
      · rcases List.mem_cons.mp hq with rfl | hq
        · exact hhere.2
        · exact hmoved (hall q (List.mem_append_right _ (List.mem_cons_of_mem _ hq))) hs
    | drop =>
      refine ⟨hinv, fun q hq => hall q ?_⟩
      rcases List.mem_append.mp hq with hq | hq
      · exact List.mem_append_left _ hq
      · exact List.mem_append_right _ (List.mem_cons_of_mem _ hq)
    | env he =>
      obtain ⟨hs, hinv'⟩ := henv _ _ hinv he
      exact ⟨hinv', fun q hq => hmoved (hall q hq) hs⟩

/-- Every call a participant executes is admitted by the condition of its label. -/
theorem admitted_together (adm : Λ → σ × History σ Call → Call → Prop) (hrefl : ∀ s, rely s s)
    {l : Λ} {h : History σ Call} {c : Call} {x y : σ × List (Participant Λ Call Out ε σ)}
    (he : Executes exec l h c x y)
    (hx : ∀ q ∈ x.2, q.rest.Meets (Program.recording exec) (Apart rely) (adm q.label)
      (fun _ _ => True) (x.1, q.history)) : adm l (x.1, h) c := by
  obtain ⟨ps, qs, k, hmem, -⟩ := he
  rw [hmem] at hx
  have hhere := hx _ (List.mem_append_right _ List.mem_cons_self) (x.1, h) ⟨hrefl _, rfl⟩
  exact hhere.1

end Recording

/-! ## Given turns -/

section Turns

variable (exec : (c : Call) → σ → Except ε (Out c) × σ)

/-- The state and the participant after the next `n` calls of the participant. -/
def solo : ℕ → Participant Λ Call Out ε σ → σ → σ × Participant Λ Call Out ε σ
  | 0, q, s => (s, q)
  | _ + 1, ⟨l, h, done r⟩, s => (s, ⟨l, h, done r⟩)
  | n + 1, ⟨l, h, call c k⟩, s => solo n ⟨l, h ++ [(s, c)], k (exec c s).1⟩ (exec c s).2

/-- The participant at position `i` makes its next `n` calls. -/
def turn (i n : ℕ) (x : σ × List (Participant Λ Call Out ε σ)) :
    σ × List (Participant Λ Call Out ε σ) :=
  match x.2[i]? with
  | none => x
  | some q => ((solo exec n q x.1).1, x.2.set i (solo exec n q x.1).2)

/-- Turns one after the other: a position and a number of calls each. -/
def play (ts : List (ℕ × ℕ)) (x : σ × List (Participant Λ Call Out ε σ)) :
    σ × List (Participant Λ Call Out ε σ) :=
  ts.foldl (fun x t => turn exec t.1 t.2 x) x

variable {exec} {methods : Λ → Program Call Out ε Unit → Prop} {env : σ → σ → Prop}

theorem together_solo (n : ℕ) (q : Participant Λ Call Out ε σ)
    (ps qs : List (Participant Λ Call Out ε σ)) (s : σ) :
    Relation.ReflTransGen (Together exec methods env) (s, ps ++ q :: qs)
      ((solo exec n q s).1, ps ++ (solo exec n q s).2 :: qs) := by
  induction n generalizing q s with
  | zero => exact .refl
  | succ n ih =>
    obtain ⟨l, h, p⟩ := q
    cases p with
    | done r => exact .refl
    | call c k => exact .head .call (ih _ _)

variable (exec) in
/-- The participant at position `i` stands between those before and those after it. -/
theorem turn_eq {i : ℕ} {x : σ × List (Participant Λ Call Out ε σ)}
    {q : Participant Λ Call Out ε σ} (hq : x.2[i]? = some q) :
    ∃ ps qs, x = (x.1, ps ++ q :: qs) ∧ ∀ n, turn exec i n x =
      ((solo exec n q x.1).1, ps ++ (solo exec n q x.1).2 :: qs) := by
  obtain ⟨hi, hget⟩ := List.getElem?_eq_some_iff.mp hq
  refine ⟨x.2.take i, x.2.drop (i + 1), Prod.ext rfl ?_, fun n => ?_⟩
  · rw [← hget, List.getElem_cons_drop, List.take_append_drop]
  · unfold turn
    rw [hq]
    dsimp only
    rw [List.set_eq_take_append_cons_drop, if_pos hi]

theorem together_turn (i n : ℕ) (x : σ × List (Participant Λ Call Out ε σ)) :
    Relation.ReflTransGen (Together exec methods env) x (turn exec i n x) := by
  cases hq : x.2[i]? with
  | none =>
    unfold turn
    rw [hq]
  | some q =>
    obtain ⟨ps, qs, hx, hturn⟩ := turn_eq exec hq
    have hsolo : Relation.ReflTransGen (Together exec methods env) (x.1, ps ++ q :: qs) _ :=
      together_solo n q ps qs x.1
    rw [← hx, ← hturn n] at hsolo
    exact hsolo

/-- The next call of the participant at position `i` is one step. -/
theorem together_next {i : ℕ} {x : σ × List (Participant Λ Call Out ε σ)} {l : Λ}
    {h : History σ Call} {c : Call} {k : Except ε (Out c) → Program Call Out ε Unit}
    (hq : x.2[i]? = some ⟨l, h, call c k⟩) :
    Together exec methods env x (turn exec i 1 x) ∧ Executes exec l h c x (turn exec i 1 x) := by
  obtain ⟨ps, qs, hx, hturn⟩ := turn_eq exec hq
  have hnext : turn exec i 1 x =
      ((exec c x.1).2, ps ++ ⟨l, h ++ [(x.1, c)], k (exec c x.1).1⟩ :: qs) := by
    rw [hturn 1]
    rfl
  refine ⟨?_, ps, qs, k, congrArg Prod.snd hx, hnext⟩
  have hcall : Together exec methods env (x.1, ps ++ ⟨l, h, call c k⟩ :: qs) _ := .call
  rw [← hx, ← hnext] at hcall
  exact hcall

theorem together_play (ts : List (ℕ × ℕ)) (x : σ × List (Participant Λ Call Out ε σ)) :
    Relation.ReflTransGen (Together exec methods env) x (play exec ts x) := by
  induction ts generalizing x with
  | nil => exact .refl
  | cons t ts ih => exact (together_turn t.1 t.2 x).trans (ih _)

/-- Clients that are started together. -/
theorem together_starts (ms : List (Λ × Program Call Out ε Unit))
    (h : ∀ m ∈ ms, methods m.1 m.2) (s : σ) :
    Relation.ReflTransGen (Together exec methods env) (s, [])
      (s, ms.map fun m => (⟨m.1, [], m.2⟩ : Participant Λ Call Out ε σ)) := by
  induction ms with
  | nil => exact .refl
  | cons m ms ih =>
    rw [List.forall_mem_cons] at h
    exact (ih h.2).tail (.start h.1)

end Turns

end Program
