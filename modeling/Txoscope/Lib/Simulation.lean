import Txoscope.Lib.Contracts

/-!
# Clients of two stores

Two stores that answer alike, and stay related, show their clients the same (`run_simulated`).
-/

namespace Program

variable {Call : Type} {Out : Call → Type} {ε α σ τ : Type}

/-- If two stores give the same answer in related states, and end up in related states, then the
same holds of whole clients, whatever they make of the answers. -/
theorem run_simulated {exec : (c : Call) → σ → Except ε (Out c) × σ}
    {exec' : (c : Call) → τ → Except ε (Out c) × τ} {R : σ → τ → Prop} {ok : τ → Call → Prop}
    (hstep : ∀ s t c, R s t → ok t c →
      (exec c s).1 = (exec' c t).1 ∧ R (exec c s).2 (exec' c t).2)
    {p : Program Call Out ε α} {s : σ} {t : τ} (h : R s t) (hp : p.Within exec' ok t) :
    (run exec p s).1 = (run exec' p t).1 ∧ R (run exec p s).2 (run exec' p t).2 := by
  induction p generalizing s t with
  | done r => exact ⟨rfl, h⟩
  | call c k ih =>
    obtain ⟨hanswer, h'⟩ := hstep s t c h hp.1
    have hk := ih (exec' c t).1 h' hp.2
    rw [run_call, run_call, hanswer]
    exact hk

end Program
