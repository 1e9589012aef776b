import Mathlib

namespace Execution

-- A run of the transition relation `Step`, together with the events it takes.
inductive Run (Step : σ → ε → σ → Prop) : σ → List ε → σ → Prop
  | refl : Run Step s [] s
  | step : Step s₁ e s₂ → Run Step s₂ es s₃ → Run Step s₁ (e :: es) s₃

-- The transition relation of a step function which rejects an event by returning `none`.
def Fires (step : σ → ε → Option σ) (s₁ : σ) (e : ε) (s₂ : σ) : Prop :=
  step s₁ e = some s₂

-- The part of `Step` whose transitions meet the condition `C` on the state before the step.
def Guarded (C : σ → ε → Prop) (Step : σ → ε → σ → Prop) (s₁ : σ) (e : ε) (s₂ : σ) : Prop :=
  C s₁ e ∧ Step s₁ e s₂

-- The part of `Step` whose transitions lead to states in `I`. In a run of it all states that are
-- reached are in `I`.
def Into (I : σ → Prop) (Step : σ → ε → σ → Prop) (s₁ : σ) (e : ε) (s₂ : σ) : Prop :=
  Step s₁ e s₂ ∧ I s₂

-- A state that can be reached from one of the initial states.
def Reachable (Init : σ → Prop) (Step : σ → ε → σ → Prop) (s : σ) : Prop :=
  ∃ s₀ es, Init s₀ ∧ Run Step s₀ es s

namespace Run

variable {σ τ ε : Type*} {Step Step' : σ → ε → σ → Prop} {s s₁ s₂ s₃ : σ}

theorem single (h : Step s₁ e s₂) : Run Step s₁ [e] s₂ :=
  .step h .refl

theorem append (r₁ : Run Step s₁ es₁ s₂) (r₂ : Run Step s₂ es₂ s₃) :
    Run Step s₁ (es₁ ++ es₂) s₃ := by
  induction r₁
  case refl        => exact r₂
  case step h _ hi => exact .step h (hi r₂)

theorem nil_eq (r : Run Step s₁ [] s₂) : s₂ = s₁ := by
  cases r
  rfl

theorem split (r : Run Step s₁ (es₁ ++ es₂) s₃) :
    ∃ s₂, Run Step s₁ es₁ s₂ ∧ Run Step s₂ es₂ s₃ := by
  induction es₁ generalizing s₁
  case nil => exact ⟨s₁, .refl, r⟩
  case cons hi =>
    cases r
    case step h r =>
      have ⟨s₂, r₁, r₂⟩ := hi r
      exact ⟨s₂, .step h r₁, r₂⟩

theorem mono (h : ∀ {s₁ e s₂}, Step s₁ e s₂ → Step' s₁ e s₂) (r : Run Step s₁ es s₂) :
    Run Step' s₁ es s₂ := by
  induction r
  case refl        => exact .refl
  case step e _ hi => exact .step (h e) hi

theorem guard {C : ε → Prop} (r : Run Step s₁ es s₂) (h : ∀ e ∈ es, C e) :
    Run (Guarded (fun _ => C) Step) s₁ es s₂ := by
  induction r
  case refl        => exact .refl
  case step e _ hi => exact .step ⟨h _ (by simp), e⟩ (hi fun e he => h e (by simp [he]))

theorem unguard {C : σ → ε → Prop} (r : Run (Guarded C Step) s₁ es s₂) : Run Step s₁ es s₂ :=
  r.mono And.right

-- What every step preserves holds at the end of a run.
theorem invariant {I : σ → Prop} (hs : ∀ {s₁ e s₂}, I s₁ → Step s₁ e s₂ → I s₂)
    (r : Run Step s₁ es s₂) (h : I s₁) : I s₂ := by
  induction r
  case refl        => exact h
  case step e _ hi => exact hi (hs h e)

-- What holds at first, and is carried on by each step whatever happened before, holds of a whole run
-- and its events.
theorem history {P : List ε → σ → Prop} (r : Run Step s₁ es s₂) (h : P [] s₁)
    (hs : ∀ {es s e s'}, Run Step s₁ es s → P es s → Step s e s' → P (es ++ [e]) s') : P es s₂ := by
  induction es using List.reverseRecOn generalizing s₂
  case nil => exact r.nil_eq ▸ h
  case append_singleton es e hi =>
    have ⟨s, r, re⟩ := r.split
    cases re
    case step he re => exact re.nil_eq ▸ hs r (hi r) he

-- If `C` is what a step has to meet for `R` to hold between its ends, the runs in which it does are
-- those that meet it. This may rely on what the steps that meet it preserve.
theorem relates_iff_guarded {R : σ → ε → σ → Prop} {J : σ → Prop} {C : σ → ε → Prop}
    (hj : ∀ {s₁ e s₂}, J s₁ → R s₁ e s₂ → Step s₁ e s₂ → J s₂)
    (hs : ∀ {s₁ e s₂}, J s₁ → Step s₁ e s₂ → (R s₁ e s₂ ↔ C s₁ e)) (h : J s₁) :
    Run (fun s₁ e s₂ => R s₁ e s₂ ∧ Step s₁ e s₂) s₁ es s₂ ↔ Run (Guarded C Step) s₁ es s₂ := by
  constructor
  · intro r
    induction r
    case refl => exact .refl
    case step e _ hr =>
      exact .step ⟨(hs h e.right).mp e.left, e.right⟩ (hr <| hj h e.left e.right)
  · intro r
    induction r
    case refl => exact .refl
    case step e _ hr =>
      have he := (hs h e.right).mpr e.left
      exact .step ⟨he, e.right⟩ (hr <| hj h he e.right)

-- The same for what a step has to meet to stay in `I`.
theorem into_iff_guarded {I J : σ → Prop} {C : σ → ε → Prop}
    (hj : ∀ {s₁ e s₂}, J s₁ → Step s₁ e s₂ → J s₂)
    (hs : ∀ {s₁ e s₂}, J s₁ → I s₁ → Step s₁ e s₂ → (I s₂ ↔ C s₁ e)) (h : J s₁) (hi : I s₁) :
    Run (Into I Step) s₁ es s₂ ↔ Run (Guarded C Step) s₁ es s₂ := by
  have h : Run (fun s₁ e s₂ => I s₂ ∧ Step s₁ e s₂) s₁ es s₂ ↔ Run (Guarded C Step) s₁ es s₂ :=
    relates_iff_guarded (J := fun s => J s ∧ I s) (fun h hi e => ⟨hj h.left e, hi⟩)
      (fun h e => hs h.left h.right e) ⟨h, hi⟩
  exact ⟨fun r => h.mp <| r.mono And.symm, fun r => h.mpr r |>.mono And.symm⟩

-- What every step preserves between its ends holds between the two ends of a run.
theorem frame {R : σ → σ → Prop} (hr : ∀ s, R s s)
    (hs : ∀ {s₁ s₂ e s₃}, R s₁ s₂ → Step s₂ e s₃ → R s₁ s₃) (r : Run Step s₁ es s₂) : R s₁ s₂ :=
  r.invariant (I := R s₁) hs (hr s₁)

-- Runs are carried along `f` when the steps of an image are exactly the images of the steps.
theorem map_iff {Step₁ : σ → ε → σ → Prop} {Step₂ : τ → ε → τ → Prop} {f : τ → σ}
    (hf : ∀ {t e s}, Step₁ (f t) e s ↔ ∃ t', Step₂ t e t' ∧ f t' = s) :
    Run Step₁ (f t) es s ↔ ∃ t', Run Step₂ t es t' ∧ f t' = s := by
  induction es generalizing t
  case nil =>
    constructor
    · intro r
      exact ⟨t, .refl, r.nil_eq.symm⟩
    · rintro ⟨_, r, rfl⟩
      cases r
      exact .refl
  case cons e es hi =>
    constructor
    · intro r
      cases r
      case step h r =>
        obtain ⟨t₁, h', rfl⟩ := hf.mp h
        obtain ⟨t₂, r', rfl⟩ := hi.mp r
        exact ⟨t₂, .step h' r', rfl⟩
    · rintro ⟨_, r, rfl⟩
      cases r
      case step h r => exact .step (hf.mpr ⟨_, h, rfl⟩) (hi.mpr ⟨_, r, rfl⟩)

end Run

namespace Fires

variable {σ τ ε : Type*} {step : σ → ε → Option σ}

theorem deterministic (h₁ : Fires step s e s₁) (h₂ : Fires step s e s₂) : s₁ = s₂ :=
  Option.some.inj (h₁.symm.trans h₂)

theorem run_deterministic (r₁ : Run (Fires step) s es s₁) (r₂ : Run (Fires step) s es s₂) :
    s₁ = s₂ := by
  induction r₁
  case refl => exact r₂.nil_eq.symm
  case step e₁ _ hi =>
    cases r₂
    case step e₂ r₂ => exact hi (deterministic e₁ e₂ ▸ r₂)

-- Two conditions that are met along the same events are met along one run.
theorem run_guarded_and {C D : σ → ε → Prop} (r₁ : Run (Guarded C (Fires step)) s es s₁)
    (r₂ : Run (Guarded D (Fires step)) s es s₂) :
    Run (Guarded (fun s e => C s e ∧ D s e) (Fires step)) s es s₁ := by
  induction r₁
  case refl => exact .refl
  case step h₁ _ hi =>
    cases r₂
    case step h₂ r₂ =>
      obtain rfl := deterministic h₁.right h₂.right
      exact .step ⟨⟨h₁.left, h₂.left⟩, h₁.right⟩ (hi r₂)

-- Executes a list of events.
def exec (step : σ → ε → Option σ) (s : σ) (es : List ε) : Option σ :=
  es.foldlM step s

theorem run_iff_exec : Run (Fires step) s₁ es s₂ ↔ exec step s₁ es = some s₂ := by
  induction es generalizing s₁
  case nil =>
    simp only [exec, List.foldlM_nil, Option.pure_def, Option.some.injEq]
    exact ⟨fun r => r.nil_eq.symm, fun h => h ▸ .refl⟩
  case cons e es hi =>
    simp only [exec, List.foldlM_cons, Option.bind_eq_bind, Option.bind_eq_some_iff]
    constructor
    · intro r
      cases r
      case step h r => exact ⟨_, h, hi.mp r⟩
    · rintro ⟨_, h, r⟩
      exact .step h (hi.mpr r)

-- A run found by executing it: `p` is evaluated on the state the events lead to.
theorem run_of_exec (step : σ → ε → Option σ) (s₁ : σ) (es : List ε) (p : σ → Bool)
    (h : (exec step s₁ es).any p) : ∃ s₂, Run (Fires step) s₁ es s₂ ∧ p s₂ := by
  obtain ⟨s₂, he, hp⟩ := Option.any_eq_true .. |>.mp h
  exact ⟨s₂, run_iff_exec.mpr he, hp⟩

theorem run_guarded_of_exec (step : σ → ε → Option σ) (C : σ → ε → Prop) [∀ s e, Decidable (C s e)]
    (s₁ : σ) (es : List ε) (p : σ → Bool)
    (h : (exec (fun s e => if C s e then step s e else none) s₁ es).any p) :
    ∃ s₂, Run (Guarded C (Fires step)) s₁ es s₂ ∧ p s₂ := by
  obtain ⟨s₂, r, hp⟩ := run_of_exec _ _ _ _ h
  refine ⟨s₂, r.mono fun h => ?_, hp⟩
  simpa [Fires, Guarded, Option.ite_none_right_eq_some] using h

theorem exec_map {step₁ : σ → ε → Option σ} {step₂ : τ → ε → Option τ} {f : τ → σ}
    (hf : ∀ t e, step₁ (f t) e = (step₂ t e).map f) (t : τ) (es : List ε) :
    exec step₁ (f t) es = (exec step₂ t es).map f := by
  induction es generalizing t
  case nil => rfl
  case cons e es hi =>
    simp only [exec, List.foldlM_cons, hf] at hi ⊢
    cases step₂ t e
    case none   => rfl
    case some t => exact hi t

-- A homomorphism of step functions carries their runs.
theorem run_map_iff {step₁ : σ → ε → Option σ} {step₂ : τ → ε → Option τ} {f : τ → σ}
    (hf : ∀ t e, step₁ (f t) e = (step₂ t e).map f) :
    Run (Fires step₁) (f t) es s ↔ ∃ t', Run (Fires step₂) t es t' ∧ f t' = s := by
  refine Run.map_iff fun {t e s} => ?_
  simp [Fires, hf]

-- The same where the steps are guarded by a condition on the image.
theorem run_guarded_map_iff {step₁ : σ → ε → Option σ} {step₂ : τ → ε → Option τ} {f : τ → σ}
    {C : σ → ε → Prop} (hf : ∀ t e, step₁ (f t) e = (step₂ t e).map f) :
    Run (Guarded C (Fires step₁)) (f t) es s ↔
      ∃ t', Run (Guarded (C ∘ f) (Fires step₂)) t es t' ∧ f t' = s := by
  refine Run.map_iff fun {t e s} => ?_
  simp [Guarded, Fires, hf, and_assoc]

end Fires
end Execution
