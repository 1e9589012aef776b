import FeelingsOverflow.Screens.Feed
import FeelingsOverflow.Screens.Theorems.Visibility
import FeelingsOverflow.Screens.Theorems.Representation

open Firestore FirebaseMethods

namespace HomeTab

variable {followings : List Uid} {latest : (i : Fin followings.length) → QuerySnapshot (followings.get i)}

-- Each post that passes the filter is shown exactly once, after all that are more recent.
structure Ordered (latest : (i : Fin followings.length) → QuerySnapshot (followings.get i))
    (offset now : Int) (posts : List Post) : Prop where
  once : (posts.map Post.reference).Nodup
  complete : ∀ p, p ∈ posts ↔ (∃ i, p ∈ (latest i).docs) ∧ isShown offset now p
  sorted : posts.Pairwise Post.NotBefore

-- What is shown of one followed user is as recent as, and different from, all that is shown of the
-- users who come later in the list.
def Successive (latest : (i : Fin followings.length) → QuerySnapshot (followings.get i))
    (offset now : Int) : Prop :=
  ∀ i j, i < j → ∀ p ∈ (latest i).docs, ∀ q ∈ (latest j).docs,
    isShown offset now p → isShown offset now q → p.NotBefore q ∧ p.reference ≠ q.reference

theorem mem_listOfDocumentSnapshot : p ∈ listOfDocumentSnapshot latest ↔ ∃ i, p ∈ (latest i).docs := by
  simp [listOfDocumentSnapshot, List.mem_flatten, List.mem_ofFn]

-- A relation between the posts of a feed is one within each of the snapshots, and between any two.
theorem pairwise_shown_iff {R : Post → Post → Prop} (hr : ∀ i, (latest i).docs.Pairwise R)
    (offset now : Int) :
    ((listOfDocumentSnapshot latest).filter (isShown offset now)).Pairwise R ↔
      ∀ i j, i < j → ∀ p ∈ (latest i).docs, ∀ q ∈ (latest j).docs,
        isShown offset now p → isShown offset now q → R p q := by
  rw [List.pairwise_filter, listOfDocumentSnapshot, List.pairwise_flatten, List.pairwise_ofFn,
    List.forall_mem_ofFn_iff]
  constructor
  · exact fun h i j hij => h.right hij
  · exact fun h => ⟨fun i => (hr i).imp fun h _ _ => h, fun i j hij => h i j hij⟩

theorem feed_eq (h : ∀ i, ∀ p ∈ (latest i).docs, ∃ poster posted, Posted poster posted p.data)
    (offset now : Int) : feed latest offset now =
      some ((listOfDocumentSnapshot latest).filter (isShown offset now)) := by
  rw [feed, if_pos]
  rw [List.all_eq_true]
  intro p hp
  obtain ⟨i, hi⟩ := mem_listOfDocumentSnapshot.mp hp
  obtain ⟨_, _, hp⟩ := h i p hi
  simp [passes_eq hp]

-- The feed is ordered exactly when its snapshots succeed one another.
theorem feed_ordered_iff (h : ∀ i, ∀ p ∈ (latest i).docs, ∃ poster posted, Posted poster posted p.data)
    (offset now : Int) : (∃ posts, feed latest offset now = some posts ∧
      Ordered latest offset now posts) ↔ Successive latest offset now := by
  have hn := pairwise_shown_iff (fun i => List.pairwise_map.mp (latest i).nodup) offset now
  have hs := pairwise_shown_iff (fun i => (latest i).sorted) offset now
  rw [feed_eq h]
  constructor
  · intro ⟨posts, he, ho⟩
    rw [←Option.some.inj he] at ho
    have hn := hn.mp <| List.pairwise_map.mp ho.once
    have hs := hs.mp ho.sorted
    exact fun i j hij p hp q hq hp' hq' => ⟨hs i j hij p hp q hq hp' hq', hn i j hij p hp q hq hp' hq'⟩
  · intro ho
    exact ⟨_, rfl, {
      once     := List.pairwise_map.mpr <| hn.mpr fun i j hij p hp q hq hp' hq' =>
        (ho i j hij p hp q hq hp' hq').right
      complete := by simp [mem_listOfDocumentSnapshot]
      sorted   := hs.mpr fun i j hij p hp q hq hp' hq' => (ho i j hij p hp q hq hp' hq').left
    }⟩

theorem reference_ne (h : followings.Nodup) {i j : Fin followings.length} (hij : i < j) {p q : Post}
    (hp : p ∈ (latest i).docs) (hq : q ∈ (latest j).docs) : p.reference ≠ q.reference := by
  intro he
  have hu : p.user = q.user := congrArg Prod.fst he
  rw [(latest i).user_eq p hp, (latest j).user_eq q hq] at hu
  exact Fin.ne_of_lt hij <| Fin.ext <| h.getElem_inj_iff.mp hu

-- Where nobody is followed twice, it is only about the times.
theorem successive_iff_of_nodup (h : followings.Nodup) (offset now : Int) :
    Successive latest offset now ↔ ∀ i j, i < j → ∀ p ∈ (latest i).docs, ∀ q ∈ (latest j).docs,
      isShown offset now p → isShown offset now q → p.NotBefore q := by
  constructor
  · exact fun ho i j hij p hp q hq hp' hq' => (ho i j hij p hp q hq hp' hq').left
  · exact fun ho i j hij p hp q hq hp' hq' =>
      ⟨ho i j hij p hp q hq hp' hq', reference_ne h hij hp hq⟩

theorem nodup_getPosts (h : Users.WellFormed s) (hp : getPosts (s uid) = some followings) :
    followings.Nodup := by
  simp only [getPosts, Option.bind_eq_bind, Option.bind_eq_some_iff] at hp
  have ⟨d, hd, hp⟩ := hp
  have ⟨xs, hx, hn, _⟩ := (h uid (by simp [hd])).right "following" (by simp)
  simp only [field, hd, Option.bind_some] at hx
  simp only [hx, Option.pure_def, Option.some.injEq] at hp
  exact hp ▸ hn

-- Each of the users has posted a card at the given time.
def cardOf (times : Uid → Int) (user : Uid) : Post where
  user := user
  id   := "card"
  data := postCard (.string "[]") "backgroundPastel" user 28800 (times user) (times user)

def cardsOf (times : Uid → Int) (followings : List Uid) (i : Fin followings.length) :
    QuerySnapshot (followings.get i) where
  docs    := [cardOf times (followings.get i)]
  user_eq := by simp [cardOf]
  nodup   := by simp
  sorted  := by simp

section

variable {times : Uid → Int}

theorem posted_of_mem_cardsOf {i : Fin followings.length} (h : p ∈ (cardsOf times followings i).docs) :
    ∃ poster posted, Posted poster posted p.data := by
  rw [List.mem_singleton.mp h]
  exact ⟨_, _, .card⟩

theorem cardOf_notBefore_iff : (cardOf times u).NotBefore (cardOf times v) ↔ times v ≤ times u := by
  constructor
  · intro ⟨_, _, ht, hu, h⟩
    rwa [←Option.some.inj ht, ←Option.some.inj hu] at h
  · exact fun h => ⟨_, _, rfl, rfl, h⟩

end

def bobLater (uid : Uid) : Int :=
  noon + if uid = "bob" then 60 * 60 * 1000000 else 0

theorem ordered_of_bobFirst : ∃ posts,
    feed (cardsOf bobLater ["bob", "carol"]) 28800 (bobLater "bob") = some posts ∧
    Ordered (cardsOf bobLater ["bob", "carol"]) 28800 (bobLater "bob") posts := by
  refine feed_ordered_iff (fun _ _ => posted_of_mem_cardsOf) .. |>.mpr ?_
  have h : ∀ i j : Fin 2, i < j → bobLater ["bob", "carol"][j] ≤ bobLater ["bob", "carol"][i] ∧
    ["bob", "carol"][i] ≠ ["bob", "carol"][j] := by decide
  intro i j hij p hp q hq _ _
  have ⟨ht, hn⟩ := h i j hij
  rw [List.mem_singleton.mp hp, List.mem_singleton.mp hq]
  exact ⟨cardOf_notBefore_iff.mpr ht, fun he => hn <| congrArg Prod.fst he⟩

-- The card of Carol, who is followed first, is shown before the more recent one of Bob.
theorem not_ordered_of_carolFirst : ¬∃ posts,
    feed (cardsOf bobLater ["carol", "bob"]) 28800 (bobLater "bob") = some posts ∧
    Ordered (cardsOf bobLater ["carol", "bob"]) 28800 (bobLater "bob") posts := by
  intro ⟨posts, hf, ho⟩
  rw [feed_eq (fun _ _ => posted_of_mem_cardsOf), Option.some.injEq] at hf
  have hs := pairwise_shown_iff (fun i => (cardsOf bobLater ["carol", "bob"] i).sorted) 28800
    (bobLater "bob") |>.mp (hf ▸ ho.sorted)
  have hn := hs ⟨0, by decide⟩ ⟨1, by decide⟩ (by decide) _ (List.mem_singleton_self _) _
    (List.mem_singleton_self _) (by decide) (by decide)
  exact absurd (cardOf_notBefore_iff.mp hn) (by decide)

end HomeTab
