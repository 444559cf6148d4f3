import CharlotteOs.Lib.Run

/-!
# Refinement of a machine that answers

A machine takes operations one after the other and answers each of them, or it has a fault. A
specification is a machine without faults. The machine refines the specification if it answers every
sequence of operations as the specification does. This follows from a relation between their states
that every operation keeps.

## Main definitions

* `answers step s ops`: the answers of a run and the state that it ends in, or the first fault
* `specAnswers spec t ops`: the same for a specification
* `Simulates step spec R`: related states answer alike, and stay related
* `forget step`: the machine without its answers

## Main results

* `Simulates.answers`: a simulation gives the answers of every run
* `Simulates.along`: what holds of related states holds along every run
-/

namespace DataRefinement

open FallibleRun

variable {σ τ ω ρ ε : Type*}

/-- The answers of a run and the state that it ends in, or the fault of the first step that has
one. -/
def answers (step : σ → ω → Except ε (ρ × σ)) : σ → List ω → Except ε (List ρ × σ)
  | s, [] => .ok ([], s)
  | s, op :: ops =>
    match step s op with
    | .error e => .error e
    | .ok (r, s') => (answers step s' ops).map fun x => (r :: x.1, x.2)

/-- The answers of a specification, which has no faults. -/
def specAnswers (spec : τ → ω → ρ × τ) : τ → List ω → List ρ × τ
  | t, [] => ([], t)
  | t, op :: ops =>
    let rest := specAnswers spec (spec t op).2 ops
    ((spec t op).1 :: rest.1, rest.2)

/-- **A simulation**: in related states the machine answers as the specification does, and the
states after that are related. -/
def Simulates (step : σ → ω → Except ε (ρ × σ)) (spec : τ → ω → ρ × τ) (R : σ → τ → Prop) : Prop :=
  ∀ s t op, R s t → ∃ s', step s op = .ok ((spec t op).1, s') ∧ R s' (spec t op).2

/-- The machine without its answers. -/
def forget (step : σ → ω → Except ε (ρ × σ)) (s : σ) (op : ω) : Except ε σ :=
  (step s op).map Prod.snd

variable {step : σ → ω → Except ε (ρ × σ)} {spec : τ → ω → ρ × τ} {R : σ → τ → Prop} {s : σ} {t : τ}

/-- **Every run is answered** as the specification answers it. -/
theorem Simulates.answers (h : Simulates step spec R) (hst : R s t) (ops : List ω) :
    ∃ s', answers step s ops = .ok ((specAnswers spec t ops).1, s') ∧
      R s' (specAnswers spec t ops).2 := by
  induction ops generalizing s t with
  | nil => exact ⟨s, rfl, hst⟩
  | cons op ops ih =>
    obtain ⟨s₁, hs₁, hst₁⟩ := h s t op hst
    obtain ⟨s', hs', hst'⟩ := ih hst₁
    refine ⟨s', ?_, hst'⟩
    rw [DataRefinement.answers, hs₁]
    dsimp only
    rw [hs']
    rfl

/-- What holds of related states holds along every run. -/
theorem Simulates.along (h : Simulates step spec R) {Q : σ → ω → Prop}
    (hQ : ∀ s t op, R s t → Q s op) (hst : R s t) (ops : List ω) : Along (forget step) Q s ops := by
  refine Along.of_invariant (I := fun s => ∃ t, R s t) (fun s op ⟨t, hst⟩ _ => ?_) ⟨t, hst⟩
    (along_true s ops)
  refine ⟨hQ s t op hst, fun s₁ hs₁ => ?_⟩
  obtain ⟨s', hs', hst'⟩ := h s t op hst
  rw [forget, hs'] at hs₁
  cases hs₁
  exact ⟨_, hst'⟩

end DataRefinement
