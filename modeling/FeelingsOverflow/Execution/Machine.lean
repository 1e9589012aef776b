import FeelingsOverflow.Execution.Run

-- What holds of all entries of a list still does when one of them is replaced by another like it.
theorem List.forall_mem_set {P : α → Prop} {xs : List α} {i : Nat} (h : ∀ x ∈ xs, P x) (hx : P x) :
    ∀ y ∈ xs.set i x, P y := by
  intro y hy
  rcases List.mem_or_eq_of_mem_set hy with hy | rfl
  case inl => exact h y hy
  case inr => exact hx

-- A machine is what can be scheduled over a shared state: it advances by one atomic step at a time,
-- and the flag of a step tells whether the awaited operation is carried out (`true`) or fails.
structure Machine (σ θ : Type) where
  step : θ → Bool → σ → Option (θ × σ)
  finished : θ → Bool
  step_eq_none : ∀ {t ok s}, step t ok s = none ↔ finished t

namespace Machine

variable {σ σ' θ θ' ι : Type} {M : Machine σ θ}

theorem exists_step (h : M.finished t = false) (ok s) :
    ∃ t' s', M.step t ok s = some (t', s') := by
  cases hs : M.step t ok s
  case none   => simp [M.step_eq_none.mp hs] at h
  case some p => exact ⟨p.1, p.2, rfl⟩

theorem not_finished (h : M.step t ok s = some p) : M.finished t = false := by
  by_contra hc
  simp [M.step_eq_none.mpr (Bool.not_eq_false _ ▸ hc)] at h

-- Two machines over one shared state which schedule alike.
structure Hom (M : Machine σ θ) (M' : Machine σ θ') where
  map : θ → θ'
  step_map : ∀ {t ok s}, M'.step (map t) ok s = (M.step t ok s).map (Prod.map map id)
  finished_map : ∀ {t}, M'.finished (map t) = M.finished t

-- A shared state together with a family of concurrently running machines.
@[ext]
structure Pool (σ θ ι : Type) where
  store : σ
  threads : ι → θ

namespace Pool

variable [DecidableEq ι]

-- An event names the machine that takes the next step and whether its operation is carried out.
def step (M : Machine σ θ) (p : Pool σ θ ι) (e : ι × Bool) : Option (Pool σ θ ι) :=
  (M.step (p.threads e.1) e.2 p.store).map fun r => ⟨r.2, Function.update p.threads e.1 r.1⟩

theorem step_eq_some {p p' : Pool σ θ ι} : p.step M e = some p' ↔
    ∃ t s, M.step (p.threads e.1) e.2 p.store = some (t, s) ∧
      p' = ⟨s, Function.update p.threads e.1 t⟩ := by
  simp only [step, Option.map_eq_some_iff, Prod.exists]
  constructor <;> rintro ⟨t, s, h, rfl⟩ <;> exact ⟨t, s, h, rfl⟩

def map (f : θ → θ') (p : Pool σ θ ι) : Pool σ θ' ι where
  store := p.store
  threads := f ∘ p.threads

omit [DecidableEq ι] in
@[simp]
theorem map_store (f : θ → θ') (p : Pool σ θ ι) : (p.map f).store = p.store :=
  rfl

omit [DecidableEq ι] in
@[simp]
theorem map_threads (f : θ → θ') (p : Pool σ θ ι) (i : ι) :
    (p.map f).threads i = f (p.threads i) :=
  rfl

theorem step_map {M' : Machine σ θ'} (f : Hom M M') (p : Pool σ θ ι) (e : ι × Bool) :
    (p.map f.map).step M' e = (p.step M e).map (map f.map) := by
  simp only [step, map, Function.comp_apply, f.step_map]
  cases M.step (p.threads e.1) e.2 p.store <;> simp [map, Function.comp_update]

open Execution in
theorem run_map_iff {M' : Machine σ θ'} (f : Hom M M') {p : Pool σ θ ι} :
    Run (Fires (step M')) (p.map f.map) es q ↔
      ∃ p', Run (Fires (step M)) p es p' ∧ p'.map f.map = q :=
  Fires.run_map_iff (step_map f)

open Execution in
theorem run_guarded_map_iff {M' : Machine σ θ'} (f : Hom M M') {p : Pool σ θ ι}
    {C : Pool σ θ' ι → ι × Bool → Prop} :
    Run (Guarded C (Fires (step M'))) (p.map f.map) es q ↔
      ∃ p', Run (Guarded (C ∘ map f.map) (Fires (step M))) p es p' ∧ p'.map f.map = q :=
  Fires.run_guarded_map_iff (step_map f)

end Pool

-- An observation of the shared state which the machines satisfying `own` act on by themselves: their
-- steps are steps of `N` on what is observed, and no other machine's step can be observed. All of
-- this may rely on what machines know about the state, which no step of any machine invalidates.
structure Observation (M : Machine σ θ) (N : Machine σ' θ) (own : θ → Prop) where
  view : σ → σ'
  sound : θ → σ → Prop
  sound_step : sound t s → M.step t ok s = some (t', s') → sound t' s'
  sound_frame : sound t s → M.step t ok s = some (t', s') → sound x s → sound x s'
  own_step : sound t s → own t → M.step t ok s = some (t', s') →
    N.step t ok (view s) = some (t', view s')
  other_step : sound t s → ¬own t → M.step t ok s = some (t', s') → view s' = view s
  own_iff : M.step t ok s = some (t', s') → (own t' ↔ own t)

namespace Observation

open Execution

variable {N : Machine σ' θ} {own : θ → Prop} [DecidableEq ι]

def Sound (o : Observation M N own) (p : Pool σ θ ι) : Prop :=
  ∀ i, o.sound (p.threads i) p.store

theorem Sound.step {o : Observation M N own} {p p' : Pool σ θ ι} (h : o.Sound p)
    (hp : p.step M e = some p') : o.Sound p' := by
  obtain ⟨t, s, hs, rfl⟩ := Pool.step_eq_some.mp hp
  intro i
  by_cases hi : i = e.1
  case pos => simpa [hi] using o.sound_step (h e.1) hs
  case neg => simpa [hi] using o.sound_frame (h e.1) hs (h i)

-- A pool's run is observed as a run in which only the machines satisfying `own` take part.
theorem run (o : Observation M N own) [DecidablePred own] {p q : Pool σ θ ι} {T : ι → θ}
    (r : Run (Fires (Pool.step M)) p es q) (hp : o.Sound p)
    (hT : ∀ i, own (p.threads i) → T i = p.threads i) :
    ∃ T', Run (Fires (Pool.step N)) ⟨o.view p.store, T⟩
        (es.filter fun e => own (p.threads e.1)) ⟨o.view q.store, T'⟩ ∧
      ∀ i, own (p.threads i) → T' i = q.threads i := by
  induction r generalizing T
  case refl => exact ⟨T, .refl, hT⟩
  case step p₁ e p₂ es p₃ h r hi =>
    have hp' := hp.step h
    obtain ⟨t, s, hs, rfl⟩ := Pool.step_eq_some.mp h
    have own_update (i : ι) : own (Function.update p₁.threads e.1 t i) ↔ own (p₁.threads i) := by
      by_cases hi : i = e.1
      case pos => subst hi; simp [o.own_iff hs]
      case neg => simp [hi]
    simp only [own_update] at hi
    by_cases ho : own (p₁.threads e.1)
    case pos =>
      have hN := o.own_step (hp e.1) ho hs
      have ⟨T', r', hT'⟩ := hi (T := Function.update T e.1 t) hp' fun i h => by
        by_cases hi : i = e.1
        case pos => subst hi; simp
        case neg => simpa [hi] using hT i h
      refine ⟨T', ?_, hT'⟩
      rw [List.filter_cons_of_pos (by simpa using ho)]
      exact .step (Pool.step_eq_some.mpr ⟨t, o.view s, by simpa [hT _ ho] using hN, rfl⟩) r'
    case neg =>
      have ⟨T', r', hT'⟩ := hi (T := T) hp' fun i h => by
        by_cases hi : i = e.1
        case pos => subst hi; exact absurd h ho
        case neg => simpa [hi] using hT i h
      refine ⟨T', ?_, hT'⟩
      rw [List.filter_cons_of_neg (by simpa using ho)]
      rwa [o.other_step (hp e.1) ho hs] at r'

end Observation

namespace Pool

open Execution

variable [DecidableEq ι]

-- A run is determined by its initial store, its events and the machines which the events name.
theorem run_store_unique {p₁ p₂ q₁ q₂ : Pool σ θ ι} (r₁ : Run (Fires (step M)) p₁ es q₁)
    (r₂ : Run (Fires (step M)) p₂ es q₂) (hs : p₁.store = p₂.store)
    (ht : ∀ e ∈ es, p₁.threads e.1 = p₂.threads e.1) : q₁.store = q₂.store := by
  induction r₁ generalizing p₂
  case refl => exact r₂.nil_eq ▸ hs
  case step e _ _ _ h₁ _ hi =>
    cases r₂
    case step h₂ r₂ =>
      obtain ⟨t₁, s₁, e₁, rfl⟩ := step_eq_some.mp h₁
      obtain ⟨t₂, s₂, e₂, rfl⟩ := step_eq_some.mp h₂
      rw [ht _ List.mem_cons_self, hs, e₂] at e₁
      obtain ⟨rfl, rfl⟩ := Prod.mk.inj (Option.some.inj e₁)
      refine hi r₂ rfl fun e' he' => ?_
      by_cases hc : e'.1 = e.1
      case pos => simp [hc]
      case neg => simpa [hc] using ht _ (List.mem_cons_of_mem _ he')

end Pool
end Machine
