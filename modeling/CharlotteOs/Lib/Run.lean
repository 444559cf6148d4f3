import Mathlib.Logic.Basic

/-!
# Runs of a step function that can fail

A system is a step function from a state and an operation to the next state or a fault. A run is
a list of operations executed from a state, up to the first fault. What holds along a run is said
of each state a step is taken in together with the operation taken there, and is proved from an
invariant of the states.

## Main definitions

* `exec step s ops`: the state after the operations, or the first fault
* `Along step Q s ops`: `Q` holds of every state that a step of the run is taken in and of that
  step's operation

## Main results

* `invariant_exec`: what every operation keeps holds where a run ends
* `exec_flatMap`: a run of calls that are runs themselves
* `exec_part`: a run that changes one part of the state
* `exec_eq_error_iff`: where a run has a fault
* `Along.of_invariant`: what an invariant gives at each admitted step holds along the run
* `Along.of_append`: the rest of a run, from where its first operations end
* `Along.exec_ok`: a run whose steps all return reaches a state
* `Along.invariant_exec`: an invariant of the admitted steps holds where the run ends
* `Along.iff_of_invariant`: two step properties that agree under an invariant agree along runs
* `along_between`: the states on the way of a run, between its two ends
* `Along.congr`: another step function that agrees along a run takes the same run
-/

namespace FallibleRun

variable {σ ω ε : Type*} {step : σ → ω → Except ε σ}

/-- The state after the operations of a run, or the fault of the first step that has one. -/
def exec (step : σ → ω → Except ε σ) : σ → List ω → Except ε σ
  | s, [] => .ok s
  | s, op :: ops =>
    match step s op with
    | .ok s' => exec step s' ops
    | .error e => .error e

/-- `Q` holds of every state that a step of the run is taken in and of that step's operation. -/
def Along (step : σ → ω → Except ε σ) (Q : σ → ω → Prop) : σ → List ω → Prop
  | _, [] => True
  | s, op :: ops => Q s op ∧ ∀ s', step s op = .ok s' → Along step Q s' ops

@[simp] theorem exec_nil (s : σ) : exec step s [] = .ok s := rfl

theorem exec_cons_of_ok {s s' : σ} {op : ω} (h : step s op = .ok s') (ops : List ω) :
    exec step s (op :: ops) = exec step s' ops := by
  simp only [exec, h]

theorem exec_cons_of_error {s : σ} {op : ω} {e : ε} (h : step s op = .error e) (ops : List ω) :
    exec step s (op :: ops) = .error e := by
  simp only [exec, h]

/-- A run that reaches a state took each of its steps. -/
theorem exec_cons_eq_ok {s t : σ} {op : ω} {ops : List ω}
    (h : exec step s (op :: ops) = .ok t) :
    ∃ s', step s op = .ok s' ∧ exec step s' ops = .ok t := by
  cases hs : step s op with
  | ok s' => exact ⟨s', rfl, by rwa [exec_cons_of_ok hs] at h⟩
  | error e =>
    rw [exec_cons_of_error hs] at h
    cases h

theorem exec_singleton (s : σ) (op : ω) : exec step s [op] = step s op := by
  cases hs : step s op with
  | ok s' => rw [exec_cons_of_ok hs, exec_nil]
  | error e => rw [exec_cons_of_error hs]

/-- What every operation of a run keeps holds where it ends. -/
theorem invariant_exec {I : σ → Prop} {s t : σ} {ops : List ω}
    (hstep : ∀ s s', ∀ op ∈ ops, I s → step s op = .ok s' → I s') (hs : I s)
    (ht : exec step s ops = .ok t) : I t := by
  induction ops generalizing s with
  | nil =>
    cases ht
    exact hs
  | cons op ops ih =>
    obtain ⟨s', hs', hrest⟩ := exec_cons_eq_ok ht
    exact ih (fun s s' op hop => hstep s s' op (List.mem_cons_of_mem _ hop))
      (hstep s s' op List.mem_cons_self hs hs') hrest

/-- A run in two parts, whether or not the first one reaches a state. -/
theorem exec_append (s : σ) (ops ops' : List ω) :
    exec step s (ops ++ ops') = exec step s ops >>= fun t => exec step t ops' := by
  induction ops generalizing s with
  | nil => rfl
  | cons op ops ih =>
    cases hs : step s op with
    | ok s' => rw [List.cons_append, exec_cons_of_ok hs, exec_cons_of_ok hs, ih]
    | error e => rw [List.cons_append, exec_cons_of_error hs, exec_cons_of_error hs]; rfl

/-- A run whose first part reaches a state. -/
theorem exec_append_of_ok {s t : σ} {ops : List ω} (h : exec step s ops = .ok t) (ops' : List ω) :
    exec step s (ops ++ ops') = exec step t ops' := by
  induction ops generalizing s with
  | nil =>
    cases h
    rfl
  | cons op ops ih =>
    obtain ⟨s', hs', hrest⟩ := exec_cons_eq_ok h
    rw [List.cons_append, exec_cons_of_ok hs']
    exact ih hrest

theorem exec_map {α : Type*} (f : α → ω) (s : σ) (l : List α) :
    exec step s (l.map f) = exec (fun s a => step s (f a)) s l := by
  induction l generalizing s with
  | nil => rfl
  | cons a l ih =>
    rw [List.map_cons, exec, exec]
    cases step s (f a) with
    | error e => rfl
    | ok s' => exact ih s'

/-- Calls that are runs make one run. -/
theorem exec_flatMap {α : Type*} {call : σ → α → Except ε σ} {f : α → List ω}
    (h : ∀ s a, call s a = exec step s (f a)) (s : σ) (l : List α) :
    exec call s l = exec step s (l.flatMap f) := by
  induction l generalizing s with
  | nil => rfl
  | cons a l ih =>
    rw [List.flatMap_cons, exec_append, ← h, exec]
    cases call s a with
    | error e => rfl
    | ok s' => exact ih s'

/-- A run of steps that change one part of the state is a run on that part. -/
theorem exec_part {τ : Type*} {part : τ → ω → Except ε τ} (get : σ → τ) (put : σ → τ → σ)
    (hget : ∀ s t, get (put s t) = t) (hput : ∀ s t t', put (put s t) t' = put s t')
    (hself : ∀ s, put s (get s) = s)
    (hstep : ∀ s t op, part (get s) op = .ok t → step s op = .ok (put s t)) {s : σ} {t : τ}
    {ops : List ω} (h : exec part (get s) ops = .ok t) : exec step s ops = .ok (put s t) := by
  induction ops generalizing s with
  | nil =>
    cases h
    rw [exec_nil, hself]
  | cons op ops ih =>
    obtain ⟨t₁, ht₁, h⟩ := exec_cons_eq_ok h
    rw [← hget s t₁] at h
    rw [exec_cons_of_ok (hstep s t₁ op ht₁), ih h, hput]

/-- A run has a fault exactly if one of its steps has it, after those before it have returned. -/
theorem exec_eq_error_iff {s : σ} {ops : List ω} {e : ε} :
    exec step s ops = .error e ↔ ∃ pre op post t, ops = pre ++ op :: post ∧
      exec step s pre = .ok t ∧ step t op = .error e := by
  constructor
  · intro h
    induction ops generalizing s with
    | nil => cases h
    | cons op ops ih =>
      cases hs : step s op with
      | error e' =>
        rw [exec_cons_of_error hs] at h
        cases h
        exact ⟨[], op, ops, s, rfl, rfl, hs⟩
      | ok s' =>
        rw [exec_cons_of_ok hs] at h
        obtain ⟨pre, op', post, t, rfl, hpre, ht⟩ := ih h
        exact ⟨op :: pre, op', post, t, rfl, by rw [exec_cons_of_ok hs, hpre], ht⟩
  · rintro ⟨pre, op, post, t, rfl, hpre, ht⟩
    rw [exec_append_of_ok hpre, exec_cons_of_error ht]

@[simp] theorem along_nil {Q : σ → ω → Prop} (s : σ) : Along step Q s [] := trivial

theorem along_cons {Q : σ → ω → Prop} {s : σ} {op : ω} {ops : List ω} :
    Along step Q s (op :: ops) ↔
      Q s op ∧ ∀ s', step s op = .ok s' → Along step Q s' ops := Iff.rfl

theorem along_true (s : σ) (ops : List ω) : Along step (fun _ _ => True) s ops := by
  induction ops generalizing s with
  | nil => trivial
  | cons op ops ih => exact ⟨trivial, fun s' _ => ih s'⟩

/-- What holds of the operations of a run holds along it. -/
theorem along_of_forall {P : ω → Prop} (s : σ) {ops : List ω} (h : ∀ op ∈ ops, P op) :
    Along step (fun _ op => P op) s ops := by
  induction ops generalizing s with
  | nil => trivial
  | cons op ops ih =>
    exact ⟨h op List.mem_cons_self, fun s' _ => ih s' fun op hop =>
      h op (List.mem_cons_of_mem _ hop)⟩

/-- A run of decidable steps can be checked by executing it. -/
instance decidableAlong {Q : σ → ω → Prop} [∀ s op, Decidable (Q s op)] :
    ∀ s ops, Decidable (Along step Q s ops)
  | _, [] => .isTrue trivial
  | s, op :: ops =>
    match hs : step s op with
    | .ok s' =>
      have := decidableAlong (Q := Q) s' ops
      decidable_of_iff (Q s op ∧ Along step Q s' ops) <| by simp only [along_cons, hs,
        Except.ok.injEq, forall_eq']
    | .error _ => decidable_of_iff (Q s op) <| by simp [along_cons, hs]

/-- What an invariant gives at each admitted step holds along every admitted run. -/
theorem Along.of_invariant {I : σ → Prop} {A Q : σ → ω → Prop}
    (hstep : ∀ s op, I s → A s op → Q s op ∧ ∀ s', step s op = .ok s' → I s')
    {s : σ} {ops : List ω} (hs : I s) (h : Along step A s ops) : Along step Q s ops := by
  induction ops generalizing s with
  | nil => trivial
  | cons op ops ih =>
    obtain ⟨hA, hrest⟩ := h
    obtain ⟨hQ, hI⟩ := hstep s op hs hA
    exact ⟨hQ, fun s' hs' => ih (hI s' hs') (hrest s' hs')⟩

theorem Along.mono {A Q : σ → ω → Prop} (hAQ : ∀ s op, A s op → Q s op) {s : σ} {ops : List ω}
    (h : Along step A s ops) : Along step Q s ops :=
  Along.of_invariant (I := fun _ => True) (fun s op _ hA => ⟨hAQ s op hA, fun _ _ => trivial⟩)
    trivial h

/-- The rest of a run, from the state that its first operations reach. -/
theorem Along.of_append {Q : σ → ω → Prop} {s t : σ} {ops ops' : List ω}
    (h : Along step Q s (ops ++ ops')) (ht : exec step s ops = .ok t) : Along step Q t ops' := by
  induction ops generalizing s with
  | nil =>
    rw [exec_nil] at ht
    cases ht
    exact h
  | cons op ops ih =>
    obtain ⟨s', hs', hrest⟩ := exec_cons_eq_ok ht
    exact ih (h.2 s' hs') hrest

/-- A run whose steps all return reaches a state. -/
theorem Along.exec_ok {Q : σ → ω → Prop} (hQ : ∀ s op, Q s op → ∃ s', step s op = .ok s')
    {s : σ} {ops : List ω} (h : Along step Q s ops) : ∃ t, exec step s ops = .ok t := by
  induction ops generalizing s with
  | nil => exact ⟨s, rfl⟩
  | cons op ops ih =>
    obtain ⟨s', hs'⟩ := hQ s op h.1
    rw [exec_cons_of_ok hs']
    exact ih (h.2 s' hs')

/-- A run is known to reach a state by a part of that state, which can be evaluated. -/
theorem exists_of_map_eq_ok {α : Type*} {x : Except ε σ} {f : σ → α} {a : α}
    (h : x.map f = .ok a) : ∃ t, x = .ok t ∧ f t = a := by
  cases x with
  | error e => cases h
  | ok t => exact ⟨t, rfl, Except.ok.inj h⟩

theorem eq_error_of_map {α : Type*} {x : Except ε σ} {f : σ → α} {e : ε}
    (h : x.map f = .error e) : x = .error e := by
  cases x with
  | error e' => exact congrArg Except.error (Except.error.inj h)
  | ok t => cases h

/-- An invariant of the admitted steps holds in the state where an admitted run ends. -/
theorem Along.invariant_exec {I : σ → Prop} {A : σ → ω → Prop}
    (hstep : ∀ s op s', I s → A s op → step s op = .ok s' → I s')
    {s t : σ} {ops : List ω} (hs : I s) (h : Along step A s ops)
    (ht : exec step s ops = .ok t) : I t := by
  induction ops generalizing s with
  | nil =>
    rw [exec_nil] at ht
    cases ht
    exact hs
  | cons op ops ih =>
    obtain ⟨s', hs', hrest⟩ := exec_cons_eq_ok ht
    exact ih (hstep s op s' hs h.1 hs') (h.2 s' hs') hrest

/-- Where each admitted step has the one property exactly when it has the other, and then keeps
the invariant, a run has the one property throughout exactly when it has the other. -/
theorem Along.iff_of_invariant {I : σ → Prop} {A C Q : σ → ω → Prop}
    (hiff : ∀ s op, I s → A s op → (C s op ↔ Q s op))
    (hstep : ∀ s op s', I s → A s op → C s op → step s op = .ok s' → I s')
    {s : σ} {ops : List ω} (hs : I s) (h : Along step A s ops) :
    Along step C s ops ↔ Along step Q s ops := by
  induction ops generalizing s with
  | nil => exact Iff.rfl
  | cons op ops ih =>
    rw [along_cons, along_cons, ← hiff s op hs h.1]
    refine and_congr_right fun hC => forall_congr' fun s' => ?_
    exact imp_congr_right fun hs' => ih (hstep s op s' hs h.1 hC hs') (h.2 s' hs')

/-- **Until a goal.** Where each admitted step is fair and reaches the goal or keeps the invariant,
a run reaches the goal by fair steps, or all its steps are fair. -/
theorem exec_until {I G : σ → Prop} {A : σ → ω → Prop} {F : ω → Prop}
    (hstep : ∀ s op s', I s → A s op → step s op = .ok s' → F op ∧ (G s' ∨ I s'))
    {s t : σ} {ops : List ω} (hs : I s) (h : Along step A s ops) (ht : exec step s ops = .ok t) :
    (∃ ops₁ ops₂ s₁, ops = ops₁ ++ ops₂ ∧ (∀ op ∈ ops₁, F op) ∧ exec step s ops₁ = .ok s₁ ∧ G s₁) ∨
      ∀ op ∈ ops, F op := by
  induction ops generalizing s with
  | nil => exact Or.inr fun op hop => absurd hop List.not_mem_nil
  | cons op ops ih =>
    obtain ⟨s', hs', hrest⟩ := exec_cons_eq_ok ht
    obtain ⟨hfair, hgoal | hs₁⟩ := hstep s op s' hs h.1 hs'
    · refine Or.inl ⟨[op], ops, s', rfl, ?_, (exec_singleton s op).trans hs', hgoal⟩
      rwa [List.forall_mem_singleton]
    · rcases ih hs₁ (h.2 s' hs') hrest with ⟨ops₁, ops₂, s₁, rfl, hall, hs₂, hgoal⟩ | hall
      · refine Or.inl ⟨op :: ops₁, ops₂, s₁, rfl, ?_, (exec_cons_of_ok hs' ops₁).trans hs₂, hgoal⟩
        exact List.forall_mem_cons.mpr ⟨hfair, hall⟩
      · exact Or.inr (List.forall_mem_cons.mpr ⟨hfair, hall⟩)

/-- **The states on the way of a run** are between its two ends, for a preorder that each step
goes up in. -/
theorem along_between {I : σ → Prop} {R : σ → σ → Prop} (hrefl : ∀ s, R s s)
    (htrans : ∀ {a b c}, R a b → R b c → R a c) {s t : σ} {ops : List ω}
    (hstep : ∀ u u' op, op ∈ ops → I u → step u op = .ok u' → I u' ∧ R u u') (hs : I s)
    (h : exec step s ops = .ok t) :
    Along step (fun u _ => I u ∧ R s u ∧ R u t) s ops ∧ I t ∧ R s t := by
  induction ops generalizing s with
  | nil =>
    cases h
    exact ⟨trivial, hs, hrefl _⟩
  | cons op ops ih =>
    obtain ⟨s', hs', hrest⟩ := exec_cons_eq_ok h
    obtain ⟨hI, hR⟩ := hstep s s' op List.mem_cons_self hs hs'
    obtain ⟨halong, ht, hst⟩ := ih (fun u u' op hop => hstep u u' op (List.mem_cons_of_mem _ hop))
      hI hrest
    refine ⟨⟨⟨hs, hrefl s, htrans hR hst⟩, fun u hu => ?_⟩, ht, htrans hR hst⟩
    cases hs'.symm.trans hu
    exact halong.mono fun v _ hv => ⟨hv.1, htrans hR hv.2.1, hv.2.2⟩

/-- A step function that agrees with another one along a run takes the same run. -/
theorem Along.congr {step' : σ → ω → Except ε σ} {Q : σ → ω → Prop} {s : σ} {ops : List ω}
    (h : Along step (fun u op => step' u op = step u op ∧ Q u op) s ops) :
    exec step' s ops = exec step s ops ∧ Along step' Q s ops := by
  induction ops generalizing s with
  | nil => exact ⟨rfl, trivial⟩
  | cons op ops ih =>
    obtain ⟨⟨hsame, hQ⟩, hrest⟩ := h
    cases hs' : step s op with
    | error e =>
      rw [hs'] at hsame
      refine ⟨?_, hQ, fun u hu => ?_⟩
      · rw [exec_cons_of_error hsame, exec_cons_of_error hs']
      · rw [hsame] at hu
        cases hu
    | ok s' =>
      rw [hs'] at hsame
      obtain ⟨hexec, halong⟩ := ih (hrest s' hs')
      refine ⟨?_, hQ, fun u hu => ?_⟩
      · rw [exec_cons_of_ok hsame, exec_cons_of_ok hs', hexec]
      · cases hsame.symm.trans hu
        exact halong

end FallibleRun
