import FeelingsOverflow.Execution.Run

namespace Execution

variable {σ τ ε : Type*} {step₁ : σ → ε → Option σ} {step₂ : τ → ε → Option τ} {R : σ → τ → Prop}

-- Related states either both reject an event, or both take a step, to states which are related again.
def Bisimulation (R : σ → τ → Prop) (step₁ : σ → ε → Option σ) (step₂ : τ → ε → Option τ) : Prop :=
  ∀ {s t}, R s t → ∀ e, Option.Rel R (step₁ s e) (step₂ t e)

namespace Bisimulation

variable {s s' : σ} {t t' : τ} {es : List ε}

theorem exec (h : Bisimulation R step₁ step₂) (hr : R s t) (es : List ε) :
    Option.Rel R (Fires.exec step₁ s es) (Fires.exec step₂ t es) := by
  induction es generalizing s t
  case nil => exact .some hr
  case cons e es hi =>
    simp only [Fires.exec, List.foldlM_cons]
    have he := h hr e
    revert he
    generalize step₁ s e = o₁, step₂ t e = o₂
    intro he
    cases he
    case none    => exact .none
    case some hr => exact hi hr

-- The runs of one system are those of the other one.
theorem run_iff (h : Bisimulation R step₁ step₂) (hr : R s t) :
    (∃ s', Run (Fires step₁) s es s') ↔ ∃ t', Run (Fires step₂) t es t' := by
  simp only [Fires.run_iff_exec]
  have he := h.exec hr es
  revert he
  generalize Fires.exec step₁ s es = o₁, Fires.exec step₂ t es = o₂
  intro he
  cases he <;> simp

-- They end in related states.
theorem related (h : Bisimulation R step₁ step₂) (hr : R s t) (r₁ : Run (Fires step₁) s es s')
    (r₂ : Run (Fires step₂) t es t') : R s' t' := by
  have he := h.exec hr es
  rw [Fires.run_iff_exec.mp r₁, Fires.run_iff_exec.mp r₂] at he
  cases he
  assumption

theorem run (h : Bisimulation R step₁ step₂) (hr : R s t) (r : Run (Fires step₁) s es s') :
    ∃ t', Run (Fires step₂) t es t' ∧ R s' t' := by
  have ⟨t', r'⟩ := h.run_iff hr |>.mp ⟨s', r⟩
  exact ⟨t', r', h.related hr r r'⟩

end Bisimulation
end Execution
