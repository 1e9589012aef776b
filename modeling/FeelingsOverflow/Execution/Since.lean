import FeelingsOverflow.Execution.Run

-- What some steps establish, some revoke and all others keep.
namespace Execution.Run

variable {σ ε : Type*} {Step : σ → ε → σ → Prop} {Adds Drops : σ → ε → Prop} {s₀ s : σ} {es : List ε}
variable (Has : σ → Prop)

-- `Has` is established by a step of the run, and not revoked since.
def Since (Step : σ → ε → σ → Prop) (Adds Drops : σ → ε → Prop) (s₀ : σ) (es : List ε) (s : σ) : Prop :=
  ∃ es₁ e es₂ s₁ s₂, es = es₁ ++ e :: es₂ ∧ Run Step s₀ es₁ s₁ ∧ Step s₁ e s₂ ∧ Adds s₁ e ∧
    Run (Guarded (¬Drops · ·) Step) s₂ es₂ s

theorem since_iff (hs : ∀ {s e s'}, Step s e s' → (Has s' ↔ Adds s e ∨ Has s ∧ ¬Drops s e))
    (h₀ : ¬Has s₀) (r : Run Step s₀ es s) : Has s ↔ Since Step Adds Drops s₀ es s := by
  have keeps {s₁ s₂ : σ} {es : List ε} (h : Has s₁) (r : Run (Guarded (¬Drops · ·) Step) s₁ es s₂) :
      Has s₂ :=
    r.invariant (fun h he => hs he.right |>.mpr <| .inr ⟨h, he.left⟩) h
  constructor
  · refine r.history (P := fun es s => Has s → Since Step Adds Drops s₀ es s) (absurd · h₀) ?_
    intro es s e s' r hi he h
    rcases hs he |>.mp h with ha | ⟨h, hd⟩
    case inl => exact ⟨es, e, [], s, s', rfl, r, he, ha, .refl⟩
    case inr =>
      have ⟨es₁, e₁, es₂, s₁, s₂, hes, r₁, he₁, ha, r₂⟩ := hi h
      exact ⟨es₁, e₁, es₂ ++ [e], s₁, s₂, by simp [hes], r₁, he₁, ha, r₂.append <| .single ⟨hd, he⟩⟩
  · rintro ⟨es₁, e, es₂, s₁, s₂, rfl, r₁, he, ha, r₂⟩
    exact keeps (hs he |>.mpr <| .inl ha) r₂

end Execution.Run
