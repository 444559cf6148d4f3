import CharlotteOs.Lib.Run

/-!
# Machines built on other machines

Each step of a machine makes some operations of a machine below it. A run of the machine is then a
run of the one below: the operations of its steps in a row.

## Main definitions

* `trace step ops s as`: the operations that the steps `as` make from the state `s`

## Main results

* `exec_trace`: a run of the machine is the run of its trace below
-/

namespace FallibleRun

variable {σ τ α β ε : Type*} {step : σ → α → Except ε σ} {low : τ → β → Except ε τ}

/-- The operations of a run, one step after the other. -/
def trace (step : σ → α → Except ε σ) (ops : σ → α → List β) : σ → List α → List β
  | _, [] => []
  | s, a :: as =>
    ops s a ++
      match step s a with
      | .ok s' => trace step ops s' as
      | .error _ => []

theorem trace_cons_of_ok {ops : σ → α → List β} {s s' : σ} {a : α} (h : step s a = .ok s')
    (as : List α) : trace step ops s (a :: as) = ops s a ++ trace step ops s' as := by
  rw [trace, h]

/-- Admitted operations after admitted operations. -/
theorem Along.append {B : τ → β → Prop} {t t' : τ} {bs bs' : List β} (h : Along low B t bs)
    (ht' : exec low t bs = .ok t') (h' : Along low B t' bs') : Along low B t (bs ++ bs') := by
  induction bs generalizing t with
  | nil =>
    rw [exec_nil] at ht'
    cases ht'
    exact h'
  | cons b bs ih =>
    obtain ⟨t₁, ht₁, hrest⟩ := exec_cons_eq_ok ht'
    refine ⟨h.1, fun t₂ ht₂ => ?_⟩
    cases ht₁.symm.trans ht₂
    exact ih (h.2 t₁ ht₁) hrest

/-- **A run is the run of its trace below**, where each step is the run of its operations. -/
theorem exec_trace {A : σ → α → Prop} {B : τ → β → Prop} {R : σ → τ → Prop}
    {ops : σ → α → List β}
    (hstep : ∀ s t a s', R s t → A s a → step s a = .ok s' →
      ∃ t', exec low t (ops s a) = .ok t' ∧ Along low B t (ops s a) ∧ R s' t')
    {s s' : σ} {t : τ} {as : List α} (hst : R s t) (has : Along step A s as)
    (hs' : exec step s as = .ok s') :
    ∃ t', exec low t (trace step ops s as) = .ok t' ∧ Along low B t (trace step ops s as) ∧
      R s' t' := by
  induction as generalizing s t with
  | nil =>
    rw [exec_nil] at hs'
    cases hs'
    exact ⟨t, rfl, trivial, hst⟩
  | cons a as ih =>
    obtain ⟨s₁, hs₁, hrest⟩ := exec_cons_eq_ok hs'
    obtain ⟨t₁, ht₁, halong₁, hst₁⟩ := hstep s t a s₁ hst has.1 hs₁
    obtain ⟨t', ht', halong', hst'⟩ := ih hst₁ (has.2 s₁ hs₁) hrest
    rw [trace_cons_of_ok hs₁]
    exact ⟨t', (exec_append_of_ok ht₁ _).trans ht', halong₁.append ht₁ halong', hst'⟩

end FallibleRun
