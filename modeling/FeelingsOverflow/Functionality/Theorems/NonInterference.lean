import FeelingsOverflow.Functionality.PairView

open Firestore FirebaseMethods Execution Machine

namespace Call

variable {ι : Type} {u v : Uid}

-- The steps of a schedule that belong to calls about the pair `(u, v)`.
def stepsAbout (calls : ι → Call) (u v : Uid) (es : List (ι × Bool)) : List (ι × Call × Bool) :=
  es.filter (fun e => (calls e.1).pair = (u, v)) |>.map fun e => (e.1, calls e.1, e.2)

theorem filter_eq_stepsAbout (calls : ι → Call) (u v : Uid) (es : List (ι × Bool)) :
    es.filter (fun e => (calls e.1).pair = (u, v)) =
      (stepsAbout calls u v es).map fun e => (e.1, e.2.2) := by
  simp [stepsAbout, Function.comp_def]

variable [DecidableEq ι]

-- What a run does to a pair of users is done by the calls about that pair alone.
theorem pairView_run {calls : ι → Call} (r : Run (Fires (Pool.step machine)) (pool calls s) es p)
    (u v : Uid) : ∃ T, Run (Fires (Pool.step PairView.machine))
      ⟨pairView u v s, fun i => (calls i).paused⟩
      ((stepsAbout calls u v es).map fun e => (e.1, e.2.2)) ⟨pairView u v p.store, T⟩ := by
  rw [←pausedPool_map] at r
  obtain ⟨p', r', rfl⟩ := Pool.run_map_iff Paused.hom |>.mp r
  have ⟨T, ro, _⟩ := (pairObservation u v).run r' (fun i => Paused.sound_paused (calls i) s)
    fun _ _ => rfl
  simp only [pausedPool, paused_pair] at ro
  rw [filter_eq_stepsAbout] at ro
  exact ⟨T, ro⟩

-- Two runs with the same steps of calls about `(u, v)` do the same to that pair.
theorem pairView_eq_of_stepsAbout_eq {calls₁ calls₂ : ι → Call}
    (r₁ : Run (Fires (Pool.step machine)) (pool calls₁ s) es₁ p₁)
    (r₂ : Run (Fires (Pool.step machine)) (pool calls₂ s) es₂ p₂)
    (h : stepsAbout calls₁ u v es₁ = stepsAbout calls₂ u v es₂) :
    pairView u v p₁.store = pairView u v p₂.store := by
  have ⟨T₁, r₁⟩ := pairView_run r₁ u v
  have ⟨T₂, r₂⟩ := pairView_run r₂ u v
  rw [←h] at r₂
  refine Pool.run_store_unique r₁ r₂ rfl fun e he => ?_
  -- An event names the same call in both schedules.
  obtain ⟨x, hx, rfl⟩ := List.mem_map.mp he
  obtain ⟨_, _, hx₁⟩ := List.mem_map.mp hx
  obtain ⟨_, _, hx₂⟩ := List.mem_map.mp (h ▸ hx)
  simp only [←hx₁, Prod.mk.injEq] at hx₂ ⊢
  rw [←hx₂.right.left, hx₂.left]

theorem mem_iff_of_pairView_eq (h : pairView u v s₁ = pairView u v s₂) :
    (u ∈ elements s₁ v "requests" ↔ u ∈ elements s₂ v "requests") ∧
    (u ∈ elements s₁ v "followers" ↔ u ∈ elements s₂ v "followers") ∧
    (v ∈ elements s₁ u "following" ↔ v ∈ elements s₂ u "following") := by
  simp only [←requests_isMember, ←followers_iff, ←following_isMember, h, and_self]

theorem pairs_do_not_interfere {calls₁ calls₂ : ι → Call}
    (r₁ : Run (Fires (Pool.step machine)) (pool calls₁ s) es₁ p₁)
    (r₂ : Run (Fires (Pool.step machine)) (pool calls₂ s) es₂ p₂)
    (h : stepsAbout calls₁ u v es₁ = stepsAbout calls₂ u v es₂) :
    (u ∈ elements p₁.store v "requests" ↔ u ∈ elements p₂.store v "requests") ∧
    (u ∈ elements p₁.store v "followers" ↔ u ∈ elements p₂.store v "followers") ∧
    (v ∈ elements p₁.store u "following" ↔ v ∈ elements p₂.store u "following") :=
  mem_iff_of_pairView_eq (pairView_eq_of_stepsAbout_eq r₁ r₂ h)

-- A call about one pair, next to calls about another one that follow, or fail.
def carolFollows (i : Fin 3) : Call :=
  if i.val = 0 then .followUser "alice" "bob" else .followUser "carol" "bob"

theorem pair_not_interfered : ∃ p₁ p₂,
    Run (Fires (Pool.step machine)) (pool carolFollows (registered ["alice", "bob", "carol"]))
      [(0, true), (1, true), (0, true), (1, true), (1, true), (0, true)] p₁ ∧
    Run (Fires (Pool.step machine)) (pool carolFollows (registered ["alice", "bob", "carol"]))
      [(1, true), (0, true), (2, true), (1, false), (2, true), (0, true), (0, true)] p₂ ∧
    ("alice" ∈ elements p₁.store "bob" "followers" ↔
      "alice" ∈ elements p₂.store "bob" "followers") := by
  have ⟨p₁, r₁, _⟩ := Fires.run_of_exec (Pool.step machine)
    (pool carolFollows (registered ["alice", "bob", "carol"]))
    [(0, true), (1, true), (0, true), (1, true), (1, true), (0, true)] (fun _ => true) (by decide)
  have ⟨p₂, r₂, _⟩ := Fires.run_of_exec (Pool.step machine)
    (pool carolFollows (registered ["alice", "bob", "carol"]))
    [(1, true), (0, true), (2, true), (1, false), (2, true), (0, true), (0, true)] (fun _ => true)
    (by decide)
  exact ⟨p₁, p₂, r₁, r₂, (pairs_do_not_interfere r₁ r₂ (by decide)).right.left⟩

end Call
