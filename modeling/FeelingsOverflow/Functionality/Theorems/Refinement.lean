import FeelingsOverflow.Functionality.SocialGraph

open Firestore Execution Call
open FirebaseMethods (Fresh newProfile isNull registered fresh_registered)

namespace SocialGraph

namespace Lists

variable {R : SocialGraph → Set (Uid × Uid)} {f : Uid → Uid × Uid} {xs : List Uid} {calls : List Call}

theorem nil (h : ∀ x, f x ∉ R empty) : Lists [] R f [] where
  nodup := .nil
  mem_iff x := by simp [h x]
  sorted := .nil

-- The pairs of a list that stay where they are keep their order.
theorem sorted_concat (h : Lists calls R f xs) (hs : List.Sublist ys xs)
    (hp : ∀ y ∈ ys, f y ∈ R (run (calls ++ [c]))) :
    ys.Pairwise fun a b => ∃ i j, AddedAt (calls ++ [c]) R (f a) i ∧
      AddedAt (calls ++ [c]) R (f b) j ∧ i < j := by
  refine (h.sorted.sublist hs).imp_of_mem fun {a b} ha hb ⟨i, j, hi, hj, hl⟩ => ?_
  exact ⟨i, j, hi.concat (hp a ha), hj.concat (hp b hb), hl⟩

theorem keep (h : Lists calls R f xs)
    (hk : ∀ x, f x ∈ R (run (calls ++ [c])) ↔ f x ∈ R (run calls)) :
    Lists (calls ++ [c]) R f xs where
  nodup := h.nodup
  mem_iff x := by rw [h.mem_iff, hk]
  sorted := h.sorted_concat (.refl _) fun x hx => (hk x).mpr <| (h.mem_iff x).mp hx

theorem append (h : Lists calls R f xs) (h₀ : ∀ y, f y ∉ R empty) (hx : f x ∉ R (run calls))
    (hx' : f x ∈ R (run (calls ++ [c])))
    (hk : ∀ y, y ≠ x → (f y ∈ R (run (calls ++ [c])) ↔ f y ∈ R (run calls))) :
    Lists (calls ++ [c]) R f (xs ++ [x]) where
  nodup := by
    simp only [List.nodup_append, h.nodup, List.nodup_cons, List.not_mem_nil, not_false_eq_true,
      List.nodup_nil, List.mem_singleton, true_and, ne_eq]
    rintro y hy _ rfl rfl
    exact hx <| (h.mem_iff y).mp hy
  mem_iff y := by
    by_cases hy : y = x
    case pos => simp [hy, hx']
    case neg => simp [hy, h.mem_iff, hk y hy]
  sorted := by
    have hs {y} (hy : y ∈ xs) : f y ∈ R (run (calls ++ [c])) := by
      have hn : y ≠ x := by
        rintro rfl
        exact hx <| (h.mem_iff y).mp hy
      exact (hk y hn).mpr <| (h.mem_iff y).mp hy
    refine List.pairwise_append.mpr ⟨h.sorted_concat (.refl _) fun _ => hs, List.pairwise_singleton .., ?_⟩
    intro y hy z hz
    obtain rfl := List.mem_singleton.mp hz
    have ⟨i, hi⟩ := AddedAt.exists_of_mem (h₀ y) <| (h.mem_iff y).mp hy
    exact ⟨i, calls.length, hi.concat (hs hy), .last hx hx', hi.bound⟩

theorem remove (h : Lists calls R f xs) (hx : f x ∉ R (run (calls ++ [c])))
    (hk : ∀ y, y ≠ x → (f y ∈ R (run (calls ++ [c])) ↔ f y ∈ R (run calls))) :
    Lists (calls ++ [c]) R f (arrayRemove xs [x]) where
  nodup := nodup_arrayRemove h.nodup
  mem_iff y := by
    by_cases hy : y = x
    case pos => simp [hy, hx, mem_arrayRemove]
    case neg => simp [hy, h.mem_iff, hk y hy, mem_arrayRemove]
  sorted := by
    refine h.sorted_concat arrayRemove_sublist fun y hy => ?_
    have ⟨hm, hn⟩ := mem_arrayRemove.mp hy
    exact (hk y (by simpa using hn)).mpr <| (h.mem_iff y).mp hm

end Lists

-- In every document the field `f` lists the users whose pair with the document's user, as formed by
-- `key`, is in the relation.
def Family (calls : List Call) (s : Users) (R : SocialGraph → Set (Uid × Uid)) (key : Uid → Uid → Uid × Uid)
    (f : String) : Prop :=
  ∀ u, (s u).isSome → ∃ xs, field s u f = some (.array xs) ∧ Lists calls R (key u) xs

namespace Family

variable {s : Users} {R : SocialGraph → Set (Uid × Uid)} {key : Uid → Uid → Uid × Uid} {calls : List Call}

theorem updated_ne (h : Family calls s R key f) (hf : f ≠ g) (i : Uid) (v : FieldValue) :
    Family calls (updated s i [(g, v)]) R key f := by
  intro u hu
  rw [updated_isSome] at hu
  simpa [field_updated_of_ne hf] using h u hu

theorem keep (h : Family calls s R key f) (hk : R (run (calls ++ [c])) = R (run calls)) :
    Family (calls ++ [c]) s R key f := by
  intro u hu
  have ⟨xs, hx, hl⟩ := h u hu
  exact ⟨xs, hx, hl.keep fun _ => by rw [hk]⟩

theorem append (h : Family calls s R key f) (h₀ : R empty = ∅)
    (hi : ∀ {u x u' x'}, key u x = key u' x' → u = u' ∧ x = x') (hx : key i x ∉ R (run calls))
    (hk : R (run (calls ++ [c])) = insert (key i x) (R (run calls))) :
    Family (calls ++ [c]) (updated s i [(f, .arrayUnion [x])]) R key f := by
  intro u hu
  rw [updated_isSome] at hu
  have ⟨xs, hf, hl⟩ := h u hu
  by_cases he : u = i
  case pos =>
    subst he
    have hn : x ∉ xs := fun h => hx <| (hl.mem_iff x).mp h
    refine ⟨xs ++ [x], ?_, hl.append (by simp [h₀]) hx (by simp [hk]) fun y hy => ?_⟩
    · simp [field_updated hu, FieldValue.apply, hf, arrayUnion_of_not_mem hn]
    · simp only [hk, Set.mem_insert_iff, or_iff_right_iff_imp]
      exact fun he => absurd (hi he).right hy
  case neg =>
    refine ⟨xs, by rwa [field_updated_of_ne_id he], hl.keep fun y => ?_⟩
    simp only [hk, Set.mem_insert_iff, or_iff_right_iff_imp]
    exact fun h => absurd (hi h).left he

theorem remove (h : Family calls s R key f)
    (hi : ∀ {u x u' x'}, key u x = key u' x' → u = u' ∧ x = x')
    (hk : R (run (calls ++ [c])) = R (run calls) \ {key i x}) :
    Family (calls ++ [c]) (updated s i [(f, .arrayRemove [x])]) R key f := by
  intro u hu
  rw [updated_isSome] at hu
  have ⟨xs, hf, hl⟩ := h u hu
  by_cases he : u = i
  case pos =>
    subst he
    refine ⟨arrayRemove xs [x], ?_, hl.remove (by simp [hk]) fun y hy => ?_⟩
    · simp [field_updated hu, FieldValue.apply, hf]
    · simp only [hk, Set.mem_sdiff, Set.mem_singleton_iff, and_iff_left_iff_imp]
      exact fun _ he => hy (hi he).right
  case neg =>
    refine ⟨xs, by rwa [field_updated_of_ne_id he], hl.keep fun y => ?_⟩
    simp only [hk, Set.mem_sdiff, Set.mem_singleton_iff, and_iff_left_iff_imp]
    exact fun _ h => he (hi h).left

end Family

-- The documents of a state represent the graph which the calls lead to: The lists hold its edges, and
-- all else is as it was in the initial state.
structure Represents (calls : List Call) (s₀ s : Users) : Prop where
  isSome_eq : ∀ u, (s u).isSome = (s₀ u).isSome
  frame : ∀ u, ∀ f ∉ ["followers", "following", "requests"], field s u f = field s₀ u f
  followers : Family calls s SocialGraph.follows (fun v u => (u, v)) "followers"
  following : Family calls s SocialGraph.follows (fun u v => (u, v)) "following"
  requests : Family calls s SocialGraph.requests (fun v u => (u, v)) "requests"

end SocialGraph

namespace SocialGraph.Represents

variable {s s₀ : Users} {u v : Uid} {calls : List Call}

theorem fresh (h : Fresh s) : Represents [] s s := by
  have family {R : SocialGraph → Set (Uid × Uid)} {key : Uid → Uid → Uid × Uid} {f : String}
      (hR : R SocialGraph.empty = ∅) (hf : f ∈ ["followers", "following", "requests"]) :
      Family [] s R key f := by
    intro u hu
    obtain ⟨d, hd⟩ := Option.isSome_iff_exists.mp hu
    obtain ⟨_, _, rfl⟩ := h u d hd
    refine ⟨[], ?_, .nil (by simp [hR])⟩
    simp only [List.mem_cons, List.not_mem_nil, or_false] at hf
    rcases hf with rfl | rfl | rfl <;> simp [field, hd, newProfile, Document.of, List.lookup]
  constructor
  case isSome_eq => exact fun _ => rfl
  case frame     => exact fun _ _ _ => rfl
  case followers => exact family rfl (by simp)
  case following => exact family rfl (by simp)
  case requests  => exact family rfl (by simp)

theorem keep (h : Represents calls s₀ s) (hg : run (calls ++ [c]) = run calls) :
    Represents (calls ++ [c]) s₀ s where
  isSome_eq := h.isSome_eq
  frame     := h.frame
  followers := h.followers.keep (by rw [hg])
  following := h.following.keep (by rw [hg])
  requests  := h.requests.keep (by rw [hg])

-- A call that changes the requests only.
theorem update_requests (h : Represents calls s₀ s)
    (hg : (run (calls ++ [c])).follows = (run calls).follows)
    (hr : Family (calls ++ [c]) (updated s v [("requests", value)]) SocialGraph.requests
      (fun v u => (u, v)) "requests") :
    Represents (calls ++ [c]) s₀ (updated s v [("requests", value)]) where
  isSome_eq := by simpa using h.isSome_eq
  followers := h.followers.updated_ne (by simp) v _ |>.keep hg
  following := h.following.updated_ne (by simp) v _ |>.keep hg
  requests  := hr
  frame i f hn := by
    rw [field_updated_of_ne (by rintro rfl; simp at hn)]
    exact h.frame i f hn

-- A call that changes both sides of a follow.
theorem update_follows (h : Represents calls s₀ s)
    (hg : (run (calls ++ [c])).requests = (run calls).requests)
    (hr : Family (calls ++ [c]) (updated s v [("followers", a)]) SocialGraph.follows
      (fun v u => (u, v)) "followers")
    (hl : Family (calls ++ [c])
      (updated (updated s v [("followers", a)]) u [("following", b)])
      SocialGraph.follows (fun u v => (u, v)) "following") :
    Represents (calls ++ [c]) s₀
      (updated (updated s v [("followers", a)]) u [("following", b)]) where
  isSome_eq := by simpa using h.isSome_eq
  followers := hr.updated_ne (by simp) u _
  following := hl
  requests  := h.requests.updated_ne (by simp) v _ |>.updated_ne (by simp) u _ |>.keep hg
  frame i f hn := by
    rw [field_updated_of_ne (by rintro rfl; simp at hn),
      field_updated_of_ne (by rintro rfl; simp at hn)]
    exact h.frame i f hn

theorem requestFollow_step (h : Represents calls s₀ s) (hv : (s v).isSome) :
    Represents (calls ++ [requestFollow u v]) s₀ ((requestFollow u v).code.eval perform s) := by
  have ⟨xs, hf, hl⟩ := h.requests v hv
  have hg : run (calls ++ [requestFollow u v]) =
      { run calls with requests := insert (u, v) (run calls).requests } := run_concat ..
  rw [eval_requestFollow hf]
  split
  case isTrue hx => exact h.keep (by rw [hg, Set.insert_eq_of_mem ((hl.mem_iff u).mp hx)])
  case isFalse hx =>
    refine h.update_requests (by rw [hg]) ?_
    exact h.requests.append rfl (by simp +contextual) ((hl.mem_iff u).not.mp hx) (by rw [hg])

theorem stopFollow_step (h : Represents calls s₀ s) (hv : (s v).isSome) :
    Represents (calls ++ [stopFollow u v]) s₀ ((stopFollow u v).code.eval perform s) := by
  have ⟨xs, hf, hl⟩ := h.requests v hv
  have hg : run (calls ++ [stopFollow u v]) =
      { run calls with requests := (run calls).requests \ {(u, v)} } := run_concat ..
  rw [eval_stopFollow hf]
  split
  case isTrue hx =>
    exact h.update_requests (by rw [hg]) <| h.requests.remove (by simp +contextual) (by rw [hg])
  case isFalse hx =>
    refine h.keep ?_
    rw [hg, Set.sdiff_singleton_eq_self ((hl.mem_iff u).not.mp hx)]

theorem followUser_step (h : Represents calls s₀ s) (hu : (s u).isSome) (hv : (s v).isSome) :
    Represents (calls ++ [followUser u v]) s₀ ((followUser u v).code.eval perform s) := by
  have ⟨xs, hf, hl⟩ := h.following u hu
  have hg : run (calls ++ [followUser u v]) =
      { run calls with follows := symmDiff (run calls).follows {(u, v)} } := run_concat ..
  rw [eval_followUser hv hf]
  split
  case isTrue hx =>
    have hd : symmDiff (run calls).follows {(u, v)} = (run calls).follows \ {(u, v)} :=
      symmDiff_of_ge (Set.singleton_subset_iff.mpr <| (hl.mem_iff v).mp hx)
    rw [hd] at hg
    refine h.update_follows (by rw [hg]) ?_ ?_
    · exact h.followers.remove (by simp +contextual) (by rw [hg])
    · exact h.following.updated_ne (by simp) v _ |>.remove (by simp +contextual) (by rw [hg])
  case isFalse hx =>
    have hn := (hl.mem_iff v).not.mp hx
    have hd : symmDiff (run calls).follows {(u, v)} = insert (u, v) (run calls).follows := by
      rw [Disjoint.symmDiff_eq_sup (Set.disjoint_singleton_right.mpr hn)]
      exact Set.union_singleton
    rw [hd] at hg
    refine h.update_follows (by rw [hg]) ?_ ?_
    · exact h.followers.append rfl (by simp +contextual) hn (by rw [hg])
    · exact h.following.updated_ne (by simp) v _
        |>.append rfl (by simp +contextual) hn (by rw [hg])

-- The documents and the graph move in lockstep.
theorem step (h : Represents calls s₀ s) (h₁ : (s₀ c.pair.1).isSome) (h₂ : (s₀ c.pair.2).isSome) :
    Represents (calls ++ [c]) s₀ (c.code.eval perform s) := by
  rw [←h.isSome_eq] at h₁ h₂
  cases c
  case requestFollow u v => exact h.requestFollow_step h₂
  case stopFollow u v    => exact h.stopFollow_step h₂
  case followUser u v    => exact h.followUser_step h₁ h₂

end SocialGraph.Represents

namespace Call

theorem documents_represent_graph {calls : List Call} (hf : Fresh s₀)
    (hr : ∀ c ∈ calls, (s₀ c.pair.1).isSome ∧ (s₀ c.pair.2).isSome)
    (r : Run (fun s (c : Call) s' => c.code.Completes perform s s') s₀ calls s) :
    SocialGraph.Represents calls s₀ s := by
  induction calls using List.reverseRecOn generalizing s
  case nil =>
    obtain rfl := r.nil_eq
    exact .fresh hf
  case append_singleton calls c hi =>
    have ⟨s₁, r₁, r₂⟩ := r.split
    cases r₂
    case step hs r₂ =>
      obtain rfl := r₂.nil_eq
      have ⟨h₁, h₂⟩ := hr c (by simp)
      rw [←Async.completes_iff_eval.mp hs]
      exact (hi (fun c hc => hr c (by simp [hc])) r₁).step h₁ h₂

theorem documents_represent_two_follows : SocialGraph.Represents
    [followUser "alice" "bob", followUser "carol" "bob"] (registered ["alice", "bob", "carol"])
    ((followUser "carol" "bob").code.eval perform <|
      (followUser "alice" "bob").code.eval perform <| registered ["alice", "bob", "carol"]) :=
  documents_represent_graph (fresh_registered _) (by decide) <|
    .step (Async.completes_iff_eval.mpr rfl) <| .step (Async.completes_iff_eval.mpr rfl) .refl

end Call
