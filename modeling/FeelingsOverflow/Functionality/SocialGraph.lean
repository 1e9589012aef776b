import FeelingsOverflow.Functionality.Calls

open Call
open scoped symmDiff

-- The social graph as two relations between users. A pair `(u, v)` follows when `u` follows `v`, and
-- is requested when `u` waits for `v` to accept.
@[ext]
structure SocialGraph where
  follows : Set (Uid × Uid)
  requests : Set (Uid × Uid)

namespace SocialGraph

def empty : SocialGraph where
  follows := ∅
  requests := ∅

def step (g : SocialGraph) : Call → SocialGraph
  | requestFollow u v => { g with requests := insert (u, v) g.requests }
  | stopFollow u v    => { g with requests := g.requests \ {(u, v)} }
  | followUser u v    => { g with follows := g.follows ∆ {(u, v)} }

def run (calls : List Call) : SocialGraph :=
  calls.foldl step empty

@[simp]
theorem run_nil : run [] = empty :=
  rfl

theorem run_concat (calls : List Call) (c : Call) : run (calls ++ [c]) = (run calls).step c := by
  simp [run]

-- The `n`th call is the last one that added the pair to the relation, where it has stayed since.
structure AddedAt (calls : List Call) (R : SocialGraph → Set (Uid × Uid)) (p : Uid × Uid) (n : Nat) :
    Prop where
  bound : n < calls.length
  before : p ∉ R (run (calls.take n))
  since : ∀ m, n < m → m ≤ calls.length → p ∈ R (run (calls.take m))

namespace AddedAt

variable {R : SocialGraph → Set (Uid × Uid)} {calls : List Call}

theorem unique (h₁ : AddedAt calls R p n₁) (h₂ : AddedAt calls R p n₂) : n₁ = n₂ := by
  rcases Nat.lt_trichotomy n₁ n₂ with h | h | h
  · exact absurd (h₁.since n₂ h h₂.bound.le) h₂.before
  · exact h
  · exact absurd (h₂.since n₁ h h₁.bound.le) h₁.before

theorem concat (h : AddedAt calls R p n) (hp : p ∈ R (run (calls ++ [c]))) :
    AddedAt (calls ++ [c]) R p n where
  bound := by simpa using Nat.lt_succ_of_lt h.bound
  before := by
    rw [List.take_append_of_le_length h.bound.le]
    exact h.before
  since m hn hm := by
    by_cases hl : m ≤ calls.length
    case pos =>
      rw [List.take_append_of_le_length hl]
      exact h.since m hn hl
    case neg =>
      rw [List.take_of_length_le (by simp; omega)]
      exact hp

theorem last (h : p ∉ R (run calls)) (hp : p ∈ R (run (calls ++ [c]))) :
    AddedAt (calls ++ [c]) R p calls.length where
  bound := by simp
  before := by simpa using h
  since m hn hm := by
    rw [List.take_of_length_le (by simp; omega)]
    exact hp

theorem exists_of_mem (h₀ : p ∉ R empty) (h : p ∈ R (run calls)) : ∃ n, AddedAt calls R p n := by
  induction calls using List.reverseRecOn
  case nil => exact absurd h h₀
  case append_singleton calls c hi =>
    by_cases hp : p ∈ R (run calls)
    case pos =>
      have ⟨n, hn⟩ := hi hp
      exact ⟨n, hn.concat h⟩
    case neg => exact ⟨calls.length, last hp h⟩

end AddedAt

-- A list holds the users `x` whose pair `f x` is in the relation, each once and in the order in which
-- their pairs were last added to it.
structure Lists (calls : List Call) (R : SocialGraph → Set (Uid × Uid)) (f : Uid → Uid × Uid)
    (xs : List Uid) : Prop where
  nodup : xs.Nodup
  mem_iff : ∀ x, x ∈ xs ↔ f x ∈ R (run calls)
  sorted : xs.Pairwise fun a b => ∃ i j, AddedAt calls R (f a) i ∧ AddedAt calls R (f b) j ∧ i < j

end SocialGraph
