import FeelingsOverflow.Functions.Index

open Firestore FirebaseMethods

namespace Functions

-- The token that the document of a user holds, if there is one.
def tokenOf (users : Users) (uid : Uid) : Option String :=
  token (field users uid "fcmToken")

-- Each document holds the UID it is stored under.
def Identified (users : Users) : Prop :=
  ∀ uid, (users uid).isSome → field users uid "uid" = some (.string uid)

-- The payload is sent exactly once to the token of each follower that has one, and to nobody else.
def Notified (users : Users) (followers : List Uid) (payload : Payload)
    (sent : Option (List (String × Payload))) : Prop :=
  ∃ tokens : List String, sent = some (tokens.map (·, payload)) ∧ tokens.Nodup ∧
    ∀ t, t ∈ tokens ↔ ∃ uid ∈ followers, tokenOf users uid = some t

-- One query and one call of `sendToDevice` can carry the list of followers: Somebody on it has a
-- document, everybody who has one also has a token, and nobody shares theirs.
structure Deliverable (limit : Nat) (users : Users) (followers : List Uid) : Prop where
  exists_user : ∃ uid ∈ followers, (users uid).isSome
  length_le : followers.length ≤ limit
  hasToken : ∀ uid ∈ followers, (users uid).isSome → (tokenOf users uid).isSome
  distinct : ∀ uid₁ ∈ followers, ∀ uid₂ ∈ followers,
    (tokenOf users uid₁).isSome → tokenOf users uid₁ = tokenOf users uid₂ → uid₁ = uid₂

variable {users : Users} {uid : Uid}

theorem isSome_of_tokenOf (h : tokenOf users uid = some t) : (users uid).isSome := by
  cases hv : field users uid "fcmToken"
  case none   => simp [tokenOf, hv, token] at h
  case some v => exact isSome_of_field hv

-- The users whom the query finds.
def recipients (collection : Listing users) (followers : List Uid) : List Uid :=
  collection.keys.filter (· ∈ followers)

theorem mem_recipients {collection : Listing users} :
    uid ∈ recipients collection followers ↔ uid ∈ followers ∧ (users uid).isSome := by
  simp [recipients, collection.mem_keys, and_comm]

theorem nodup_recipients {collection : Listing users} : (recipients collection followers).Nodup :=
  collection.nodup.filter _

def tokenList (collection : Listing users) (followers : List Uid) : List String :=
  (recipients collection followers).filterMap (tokenOf users)

theorem mem_tokenList {collection : Listing users} :
    t ∈ tokenList collection followers ↔ ∃ uid ∈ followers, tokenOf users uid = some t := by
  simp only [tokenList, List.mem_filterMap, mem_recipients]
  constructor
  · intro ⟨uid, h, ht⟩
    exact ⟨uid, h.left, ht⟩
  · intro ⟨uid, h, ht⟩
    exact ⟨uid, ⟨h, isSome_of_tokenOf ht⟩, ht⟩

theorem nodup_tokenList_iff {collection : Listing users} :
    (tokenList collection followers).Nodup ↔ ∀ uid₁ ∈ followers, ∀ uid₂ ∈ followers,
      (tokenOf users uid₁).isSome → tokenOf users uid₁ = tokenOf users uid₂ → uid₁ = uid₂ := by
  rw [tokenList, List.Nodup, List.pairwise_filterMap]
  constructor
  · intro h uid₁ h₁ uid₂ h₂ hs he
    have ⟨t, ht⟩ := Option.isSome_iff_exists.mp hs
    have hr₁ : uid₁ ∈ recipients collection followers :=
      mem_recipients.mpr ⟨h₁, isSome_of_tokenOf ht⟩
    have hr₂ : uid₂ ∈ recipients collection followers :=
      mem_recipients.mpr ⟨h₂, isSome_of_tokenOf (he ▸ ht)⟩
    have hs : Std.Symm fun u v => ∀ t₁, tokenOf users u = some t₁ →
        ∀ t₂, tokenOf users v = some t₂ → t₁ ≠ t₂ :=
      ⟨fun _ _ h _ h₁ _ h₂ he => h _ h₂ _ h₁ he.symm⟩
    by_contra hn
    exact h.forall hr₁ hr₂ hn _ ht _ (he ▸ ht) rfl
  · intro h
    refine nodup_recipients.imp_of_mem fun hu hv hn t₁ ht₁ t₂ ht₂ he => hn ?_
    exact h _ (mem_recipients.mp hu).left _ (mem_recipients.mp hv).left (by simp [ht₁])
      (by rw [ht₁, ht₂, he])

theorem map_fcmToken (collection : Listing users) (followers : List Uid) :
    ((recipients collection followers).filterMap users).map (· "fcmToken") =
      (recipients collection followers).map (field users · "fcmToken") := by
  rw [List.map_filterMap, ←List.filterMap_eq_map]
  refine List.filterMap_congr fun uid h => ?_
  have ⟨d, hd⟩ := Option.isSome_iff_exists.mp (mem_recipients.mp h).right
  simp [field, hd]

-- What is sent, once the query is carried out.
theorem sendPostNotification_eq (hi : Identified users)
    (hf : field users userId "followers" = some (.array followers)) (collection : Listing users)
    (limit : Nat) (postId : String) :
    sendPostNotification limit collection userId postId =
      if followers = [] ∨ limit < followers.length ∨ recipients collection followers = [] ∨
          ∃ uid ∈ recipients collection followers, tokenOf users uid = none then none
      else some <| (tokenList collection followers).map
        (·, ⟨"New Post", "A new post has been created!", postId⟩) := by
  simp only [sendPostNotification, hf]
  by_cases hr : followers = [] ∨ limit < followers.length
  case pos =>
    rw [Listing.whereIn, if_pos hr, if_pos (by grind)]
    rfl
  case neg =>
    obtain ⟨hn, hl⟩ := not_or.mp hr
    rw [collection.whereIn_key hi hn (Nat.not_lt.mp hl)]
    simp only [Option.bind_eq_bind, Option.bind_some]
    rw [←recipients, map_fcmToken, sendToDevice]
    simp only [List.map_eq_nil_iff, List.mem_map, exists_exists_and_eq_and, List.filterMap_map, hn,
      hl, false_or]
    rfl

-- The notification reaches all the followers exactly when the one query and the one call can carry it.
theorem notified_iff (hi : Identified users)
    (hf : field users userId "followers" = some (.array followers)) (collection : Listing users)
    (limit : Nat) (postId : String) :
    Notified users followers ⟨"New Post", "A new post has been created!", postId⟩
        (sendPostNotification limit collection userId postId) ↔
      Deliverable limit users followers := by
  rw [sendPostNotification_eq hi hf]
  constructor
  · intro ⟨tokens, hs, hn, hm⟩
    have ⟨hc, hs⟩ := Option.ite_none_left_eq_some.mp hs
    have he : tokenList collection followers = tokens :=
      List.map_injective_iff.mpr (fun _ _ h => congrArg Prod.fst h) (Option.some.inj hs)
    simp only [not_or, not_exists, not_and] at hc
    have ⟨_, hl, hr, ht⟩ := hc
    have ⟨uid, hu⟩ := List.exists_mem_of_ne_nil _ hr
    exact {
      exists_user := ⟨uid, mem_recipients.mp hu⟩
      length_le   := Nat.not_lt.mp hl
      hasToken    := fun uid hu hs =>
        Option.isSome_iff_ne_none.mpr <| ht uid <| mem_recipients.mpr ⟨hu, hs⟩
      distinct    := nodup_tokenList_iff.mp (he ▸ hn)
    }
  · intro h
    have ⟨uid, hu, hs⟩ := h.exists_user
    have hn : (tokenList collection followers).Nodup := nodup_tokenList_iff.mpr h.distinct
    refine ⟨tokenList collection followers, ?_, hn, fun _ => mem_tokenList⟩
    rw [if_neg]
    simp only [not_or, not_exists, not_and]
    refine ⟨List.ne_nil_of_mem hu, Nat.not_lt.mpr h.length_le, ?_, fun uid hu => ?_⟩
    · exact List.ne_nil_of_mem <| mem_recipients.mpr ⟨hu, hs⟩
    · have ⟨hu, hs⟩ := mem_recipients.mp hu
      exact Option.isSome_iff_ne_none.mp <| h.hasToken uid hu hs

-- Alice is followed by Bob and Carol, whose document is updated by the given fields.
def profiles (carol : List (String × FieldValue)) : List (Uid × Document) := [
  ("alice", (newProfile "alice" "Alice" "").update [("followers", .arrayUnion ["bob", "carol"])]),
  ("bob", (newProfile "bob" "Bob" "").update [("fcmToken", .value (.string "token of bob"))]),
  ("carol", (newProfile "carol" "Carol" "").update carol)
]

def followedByTwo (carol : List (String × FieldValue)) : Listing (.of (profiles carol)) :=
  .of (profiles carol) (by simp [profiles])

theorem identified_of_keys (collection : Listing users)
    (h : ∀ uid ∈ collection.keys, field users uid "uid" = some (.string uid)) : Identified users :=
  fun uid hu => h uid <| collection.mem_keys uid |>.mpr hu

theorem notified_of_tokens :
    let carol := [("fcmToken", .value (.string "token of carol"))]
    Notified (.of (profiles carol)) ["bob", "carol"]
      ⟨"New Post", "A new post has been created!", "post"⟩
      (sendPostNotification 30 (followedByTwo carol) "alice" "post") :=
  notified_iff (identified_of_keys (followedByTwo _) (by decide)) (by decide) _ 30 "post"
    |>.mpr ⟨by decide, by decide, by decide, by decide⟩

-- Bob is not notified either, when Carol has no token.
theorem not_notified_of_missingToken :
    tokenOf (.of (profiles [])) "bob" = some "token of bob" ∧
    ¬Notified (.of (profiles [])) ["bob", "carol"]
      ⟨"New Post", "A new post has been created!", "post"⟩
      (sendPostNotification 30 (followedByTwo []) "alice" "post") := by
  have h : sendPostNotification 30 (followedByTwo []) "alice" "post" = none := by decide
  exact ⟨by decide, by simp [Notified, h]⟩

end Functions
