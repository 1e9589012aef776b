import FeelingsOverflow.Screens.Writes
import FeelingsOverflow.Screens.PosterCards
import FeelingsOverflow.Screens.RequestList
import FeelingsOverflow.Functionality.Posts
import FeelingsOverflow.Functions.Theorems.Delivery

open Execution Firestore FirebaseMethods Machine
open Lifecycle (advance)

theorem isProfile_newProfile (uid : Uid) (username email : String) :
    IsProfile uid (newProfile uid username email) := by
  intro f
  simp only [ProfileField, newProfile, Document.of]
  split_ifs with hu ht hl
  · simp [hu, List.lookup]
  · simp only [List.mem_cons, List.not_mem_nil, or_false] at ht
    rcases ht with rfl | rfl | rfl | rfl <;> simp [List.lookup]
  · simp only [List.mem_cons, List.not_mem_nil, or_false] at hl
    rcases hl with rfl | rfl | rfl <;> simp [List.lookup]
  · simp only [List.mem_cons, List.not_mem_nil, or_false, not_or] at ht hl
    simp [List.lookup, hu, ht, hl, beq_eq_false_iff_ne.mpr]

namespace IsProfile

variable {uid : Uid} {d : Document} {f : String}

theorem text (h : IsProfile uid d) (hf : f ∈ ["username", "email", "bio", "profilepic"]) :
    ∃ t, d f = some (.string t) :=
  ProfileField.text hf |>.mp (h f)

theorem list (h : IsProfile uid d) (hf : f ∈ ["followers", "following", "requests"]) :
    ∃ xs, d f = some (.array xs) :=
  ProfileField.list hf |>.mp (h f)

-- What the writers write fits the fields.
theorem fits_text (hf : f ∈ ["username", "email", "bio", "profilepic"]) (t : String)
    (x : Option Value) : ProfileField uid f (some ((FieldValue.value (.string t)).apply x)) :=
  ProfileField.text hf |>.mpr ⟨t, rfl⟩

theorem update_list (h : IsProfile uid d) (hf : f ∈ ["followers", "following", "requests"])
    {value : FieldValue} (hv : ∀ x, ∃ xs, value.apply x = .array xs) :
    IsProfile uid (d.update [(f, value)]) := by
  refine h.update fun g w hm x _ => ?_
  obtain ⟨rfl, rfl⟩ : g = f ∧ w = value := by simpa using hm
  have ⟨xs, hx⟩ := hv x
  exact ProfileField.list hf |>.mpr ⟨xs, congrArg some hx⟩

end IsProfile

theorem identified_of_conforms (h : Conforms IsProfile s) : Functions.Identified s := by
  intro uid hu
  have ⟨d, hd⟩ := Option.isSome_iff_exists.mp hu
  have hf := h uid d hd "uid"
  simpa [field, hd, ProfileField] using hf

namespace Write

-- A piece of code that changes users' documents leaves profiles behind.
abbrev KeepsProfiles (c : Task Uid α) (Q : α → Prop) : Prop :=
  c.Keeps perform (Conforms IsProfile) Q

variable {uid : Uid}

theorem keeps_updateList (hf : f ∈ ["followers", "following", "requests"]) {value : FieldValue}
    (hv : ∀ x, ∃ xs, value.apply x = .array xs) :
    KeepsProfiles (Firestore.update uid [(f, value)]) fun _ => True :=
  keeps_update fun _ h => h.update_list hf hv

theorem keeps_asList {v : Option Value} : KeepsProfiles (FirebaseMethods.asList v) fun _ => True := by
  rcases v with _ | _ | _ | _ | _ | _ | _ <;> trivial

theorem not_isNull {d : Document} (h : IsProfile uid d) (hf : f ∈ ["followers", "following", "requests"]) :
    isNull (d f) = false := by
  have ⟨_, hx⟩ := h.list hf
  simp [isNull, hx]

theorem keeps_requestFollow (uid targetUid : Uid) :
    KeepsProfiles (requestFollow uid targetUid) fun _ => True := by
  refine .tryCatch (keeps_data fun d hd => ?_) trivial
  rw [not_isNull hd (by simp), if_neg (by simp)]
  refine keeps_asList.bind fun requests _ => ?_
  split
  case isTrue  => exact keeps_updateList (by simp) fun _ => ⟨_, rfl⟩
  case isFalse => trivial

theorem keeps_stopFollow (uid targetUid : Uid) :
    KeepsProfiles (stopFollow uid targetUid) fun _ => True := by
  refine .tryCatch (keeps_data fun d hd => ?_) trivial
  rw [not_isNull hd (by simp), if_neg (by simp)]
  refine keeps_asList.bind fun requests _ => ?_
  split
  case isTrue  => exact keeps_updateList (by simp) fun _ => ⟨_, rfl⟩
  case isFalse => trivial

theorem keeps_followUser (uid followId : Uid) :
    KeepsProfiles (followUser uid followId) fun _ => True := by
  refine .tryCatch (keeps_data fun d hd => keeps_asList.bind fun following _ => ?_) trivial
  split <;>
    exact (keeps_updateList (by simp) fun _ => ⟨_, rfl⟩).bind fun _ _ =>
      keeps_updateList (by simp) fun _ => ⟨_, rfl⟩

theorem keeps_changeDetails (uid : Uid) (e : EditProfile.Edit) :
    KeepsProfiles (EditProfile.changeDetails uid e) fun _ => True := by
  rw [EditProfile.changeDetails]
  split
  case isTrue => trivial
  case isFalse =>
    refine keeps_data fun d hd => ?_
    refine .bind (Q := fun _ => True) (.ofOption fun _ _ => trivial) fun existingUsername _ => ?_
    refine .bind (Q := fun _ => True) (.ofOption fun _ _ => trivial) fun existingBio _ => ?_
    have update {fields : List (String × FieldValue)}
        (h : ∀ f v, (f, v) ∈ fields → (f = "bio" ∨ f = "username") ∧ ∃ t, v = .value (.string t)) :
        KeepsProfiles (Firestore.update uid fields) fun _ => True := by
      refine keeps_update fun d hd => hd.update fun f v hm x _ => ?_
      obtain ⟨rfl | rfl, t, rfl⟩ := h f v hm <;> exact IsProfile.fits_text (by simp) t x
    split
    case isTrue => exact update (by simp)
    case isFalse =>
      split
      case isTrue => exact update (by simp)
      case isFalse =>
        refine update fun f v hm => ?_
        simp only [List.mem_cons, Prod.mk.injEq, List.not_mem_nil, or_false] at hm
        rcases hm with ⟨rfl, rfl⟩ | ⟨rfl, rfl⟩ <;> simp

-- Whatever writes documents of users leaves profiles behind, as long as it finds profiles.
theorem keeps_code (w : Write) : KeepsProfiles w.code fun _ => True := by
  cases w
  case settingNewProfile userUID username email => exact keeps_set (isProfile_newProfile _ _ _)
  case changeDetails uid e => exact keeps_changeDetails uid e
  case updateProfilePic uid url =>
    refine keeps_update fun d hd => hd.update fun f v hm x _ => ?_
    obtain ⟨rfl, rfl⟩ : f = "profilepic" ∧ v = _ := by simpa using hm
    exact IsProfile.fits_text (by simp) url x
  case call c =>
    cases c
    case requestFollow u v => exact keeps_requestFollow u v
    case stopFollow u v    => exact keeps_stopFollow u v
    case followUser u v    => exact keeps_followUser u v

variable {ι : Type} [DecidableEq ι] {writes : ι → Write}

theorem conforms_of_run (hs : Conforms IsProfile s)
    (r : Run (Fires (Pool.step (Async.machine (α := Unit) perform))) (pool writes s) es q) :
    Conforms IsProfile q.store :=
  Async.Keeps.run (fun i => keeps_code (writes i)) hs r

end Write

-- What reads the document of a user neither throws nor stops halfway.
structure ReadableUser (uid : Uid) (d : Document) : Prop where
  -- the rows of the lists of requests, followers and followed users
  name     : (RequestList.getUsername (some (some d))).isSome
  picUrl   : (RequestList.getPicUrl (some (some d))).isSome
  -- the cards of the feed, and its queries
  poster   : (PosterCard.profile (some d)).isSome
  posts    : (getPosts (some d)).isSome
  -- the user's own profile, and its counters
  profile  : ∀ n s, s.mounted → (advance (ProfileTab.setData (some d) n) s).1 = .done ()
  counters : ∀ posts, (ProfileTab.counters (some d) posts).followers.isSome ∧
    (ProfileTab.counters (some d) posts).following.isSome
  -- the page that others see, whose button is about this user
  page     : ∀ viewer n, (OtherUserProfile.getData (some (some d, n)) (.initial viewer uid)).builds
  unfollow : ∀ viewer n, (OtherUserProfile.getData (some (some d, n)) (.initial viewer uid)).launches
    .unfollow = [.followUser viewer uid]
  -- a change of the details
  edit     : ∀ (s : Users) (e : EditProfile.Edit), s uid = some d → (e.username ≠ "" ∨ e.bio ≠ "") →
    ((EditProfile.changeDetails uid e).attempt perform (fun _ => true) s).1 = [true, true]

namespace IsProfile

variable {uid : Uid} {d : Document}

theorem string (h : IsProfile uid d) (hf : f ∈ ["username", "email", "bio", "profilepic"]) :
    ∃ t, d.string f = some t := by
  have ⟨t, ht⟩ := h.text hf
  exact ⟨t, by simp [Document.string, ht]⟩

theorem length (h : IsProfile uid d) (hf : f ∈ ["followers", "following", "requests"]) :
    ∃ n, dynamicLength (d f) = some n := by
  have ⟨xs, hx⟩ := h.list hf
  exact ⟨xs.length, by simp [dynamicLength, hx]⟩

theorem getData_userData (h : IsProfile uid d) (viewer : Uid) (n : Nat) :
    (OtherUserProfile.getData (some (some d, n)) (.initial viewer uid)).userData = d := by
  have ⟨xs, hx⟩ := h.list (f := "followers") (by simp)
  have ⟨ys, hy⟩ := h.list (f := "following") (by simp)
  have ⟨zs, hz⟩ := h.list (f := "requests") (by simp)
  simp [OtherUserProfile.getData, hx, hy, hz, dynamicLength, dynamicContains, isNull, Id.run, pure]

theorem readable (h : IsProfile uid d) : ReadableUser uid d := by
  have ⟨name, hn⟩ := h.string (f := "username") (by simp)
  have ⟨bio, hb⟩ := h.string (f := "bio") (by simp)
  have ⟨pic, hp⟩ := h.string (f := "profilepic") (by simp)
  have ⟨following, hf⟩ := h.list (f := "following") (by simp)
  have ⟨n₁, h₁⟩ := h.length (f := "followers") (by simp)
  have ⟨n₂, h₂⟩ := h.length (f := "following") (by simp)
  constructor
  case name     => simp [RequestList.getUsername, hn]
  case picUrl   => simp [RequestList.getPicUrl, hp]
  case poster   => simp [PosterCard.profile, hn, hp]
  case posts    => simp [getPosts, hf]
  case counters => simp [ProfileTab.counters, h₁, h₂]
  case profile =>
    intro n s hs
    obtain ⟨_, _, _, _⟩ := s
    obtain rfl := hs
    simp only [ProfileTab.setData, Async.ofOption, Async.done_bind, h₁, h₂, hp]
    rfl
  case page =>
    intro viewer n
    simp only [OtherUserProfile.builds, h.getData_userData viewer n, List.all_eq_true]
    intro f hf
    have ⟨t, ht⟩ := h.text (f := f) (by simp at hf ⊢; grind)
    simp [ht]
  case unfollow =>
    intro viewer n
    have hu : d "uid" = some (.string uid) := by simpa [ProfileField] using h "uid"
    simp only [OtherUserProfile.launches, h.getData_userData viewer n, hu]
    rw [OtherUserProfile.getData_currentUser]
    rfl
  case edit =>
    intro s e hs he
    rw [EditProfile.changeDetails, if_neg (by grind)]
    have get : Async.outcome perform (Op.get uid) true s = (some (some d), s) := by simp [outcome_get, hs]
    have update (fields : List (String × FieldValue)) :
        ((Firestore.update uid fields).attempt perform (fun _ => true) s).1 = [true] := by
      simp [Firestore.update, Async.perform, Async.attempt, outcome_update, hs]
    simp only [Firestore.get, Async.perform_bind, Async.attempt, get, Option.elim, Async.ofOption,
      Async.done_bind, hn, hb]
    split_ifs <;> simp [update]

end IsProfile

namespace Write

variable {ι : Type} [DecidableEq ι] {writes : ι → Write}

-- However the writes interleave, whichever of them fail, and wherever the run is stopped: What the
-- screens read of the users' documents is always there.
theorem documents_of_run (hs : Conforms IsProfile s)
    (r : Run (Fires (Pool.step (Async.machine (α := Unit) perform))) (pool writes s) es q)
    (hd : q.store uid = some d) : ReadableUser uid d :=
  IsProfile.readable <| conforms_of_run hs r uid d hd

-- Alice and Bob sign up, and Bob follows Alice. Before that nobody has signed up.
def following : Fin 3 → Write
  | 0 => settingNewProfile "alice" "Alice" "alice@x"
  | 1 => settingNewProfile "bob" "Bob" "bob@x"
  | 2 => call (.followUser "bob" "alice")

theorem run_following : ∃ q, Run (Fires (Pool.step (Async.machine (α := Unit) perform)))
    (pool following fun _ => none) [(0, true), (1, true), (2, true), (2, true), (2, true)] q ∧
    field q.store "alice" "followers" = some (.array ["bob"]) ∧
    ∀ uid, (q.store uid).isSome ↔ uid = "alice" ∨ uid = "bob" := by
  refine ⟨_, .step rfl <| .step rfl <| .step rfl <| .step rfl <| .single rfl, by decide, fun uid => ?_⟩
  show (Function.update (Function.update (Function.update (Function.update (fun _ => none) "alice"
    (some _)) "bob" (some _)) "alice" (some _)) "bob" (some _) uid).isSome ↔ _
  by_cases ha : uid = "alice" <;> by_cases hb : uid = "bob" <;> simp [Function.update_apply, ha, hb]

theorem documents_of_following : ∃ q d, Run (Fires (Pool.step (Async.machine (α := Unit) perform)))
    (pool following fun _ => none) [(0, true), (1, true), (2, true), (2, true), (2, true)] q ∧
    q.store "alice" = some d ∧ d "followers" = some (.array ["bob"]) ∧ ReadableUser "alice" d := by
  have ⟨q, r, hf, _⟩ := run_following
  have ⟨d, hd, hf⟩ := field_eq_some_iff.mp hf
  exact ⟨q, d, r, hd, hf, documents_of_run conforms_empty r hd⟩

-- None of the documents ever gets a token. So the function that is triggered by a new post sends nothing.
theorem silent_of_run (hs : Conforms IsProfile s)
    (r : Run (Fires (Pool.step (Async.machine (α := Unit) perform))) (pool writes s) es q)
    (collection : Listing q.store) (limit : Nat) (userId : Uid) (postId : String) :
    Functions.sendPostNotification limit collection userId postId = none := by
  have hc := conforms_of_run hs r
  have hi := identified_of_conforms hc
  have hn (uid : Uid) : Functions.tokenOf q.store uid = none := by
    rw [Functions.tokenOf, field]
    cases hd : q.store uid
    case none => rfl
    case some d =>
      have hf : d "fcmToken" = none := by simpa [ProfileField] using hc uid d hd "fcmToken"
      simp [hf, Functions.token]
  cases hd : q.store userId
  case none =>
    simp [Functions.sendPostNotification, field, hd]
  case some d =>
    obtain ⟨followers, hf⟩ := (hc userId d hd).list (f := "followers") (by simp)
    have he : field q.store userId "followers" = some (.array followers) := by simp [field, hd, hf]
    rw [Functions.sendPostNotification_eq hi he, if_pos]
    by_cases he : Functions.recipients collection followers = []
    case pos => exact .inr <| .inr <| .inl he
    case neg =>
      obtain ⟨uid, hu⟩ := List.exists_mem_of_ne_nil _ he
      exact .inr <| .inr <| .inr ⟨uid, hu, hn uid⟩

theorem silent_of_following : ∃ q, ∃ collection : Listing q.store,
    Run (Fires (Pool.step (Async.machine (α := Unit) perform))) (pool following fun _ => none)
      [(0, true), (1, true), (2, true), (2, true), (2, true)] q ∧
    collection.keys = ["alice", "bob"] ∧
    field q.store "alice" "followers" = some (.array ["bob"]) ∧
    Functions.sendPostNotification 30 collection "alice" "post" = none := by
  have ⟨q, r, hf, hs⟩ := run_following
  let collection : Listing q.store := ⟨["alice", "bob"], by simp, by simp [hs]⟩
  exact ⟨q, collection, r, rfl, hf, silent_of_run conforms_empty r collection 30 "alice" "post"⟩

end Write
