import FeelingsOverflow.Screens.ProfileTab
import FeelingsOverflow.Screens.Theorems.Readable
import FeelingsOverflow.Firestore.Query

open Firestore Execution FirebaseMethods

namespace Journal

variable {δ : Type} {json : JsonCoding δ} {j : Journal} {es : List (JournalEvent δ)}

-- The diaries and the posts of all users can be listed.
def Listed (j : Journal) : Prop :=
  ∀ uid, Nonempty (Listing (j.personalDiaries uid)) ∧ Nonempty (Listing (j.posts uid))

theorem nonempty_update {c : Uid → Collection DocId} {s : Collection DocId} (v uid : Uid)
    (h : ∀ uid, Nonempty (Listing (c uid))) (l : Listing s) :
    Nonempty (Listing (Function.update c v s uid)) := by
  by_cases hu : uid = v
  case pos => subst hu; simpa using ⟨l⟩
  case neg => simpa [hu] using h uid

theorem nonempty_add {c c' : Uid → Collection DocId} {v : Uid} {id : DocId} {doc : Document}
    (h : ∀ uid, Nonempty (Listing (c uid))) (ha : add c v id doc = some c') (uid : Uid) :
    Nonempty (Listing (c' uid)) := by
  simp only [add, Option.ite_none_right_eq_some, Option.some.injEq, Option.isNone_iff_eq_none] at ha
  obtain ⟨hn, rfl⟩ := ha
  exact nonempty_update v uid h <| (h v).some.insert doc hn

theorem Listed.step (h : j.Listed) (hs : j.step json e = some j') : j'.Listed := by
  have hd (uid) := (h uid).left
  have hp (uid) := (h uid).right
  cases e
  case createDiary =>
    simp only [Journal.step, Option.ite_none_right_eq_some, Option.bind_eq_bind,
      Option.bind_eq_some_iff, Option.pure_def, Option.some.injEq] at hs
    obtain ⟨_, _, ha, rfl⟩ := hs
    exact fun uid => ⟨nonempty_add hd ha uid, hp uid⟩
  case openDiary =>
    simp only [Journal.step, Option.bind_eq_bind, Option.bind_eq_some_iff, Option.pure_def,
      Option.some.injEq] at hs
    obtain ⟨_, _, rfl⟩ := hs
    exact h
  case editDiary =>
    simp only [Journal.step, perform, Option.bind_eq_bind, Option.bind_eq_some_iff,
      Option.map_eq_some_iff, Option.pure_def, Option.some.injEq] at hs
    obtain ⟨diary, _, _, ⟨doc, hw, rfl⟩, rfl⟩ := hs
    have hs := Option.isSome_of_eq_some hw
    exact fun uid => ⟨nonempty_update diary.uid uid hd <| (hd diary.uid).some.replace _ hs, hp uid⟩
  case deleteDiary =>
    simp only [Journal.step, Option.bind_eq_bind, Option.bind_eq_some_iff, Option.pure_def,
      Option.some.injEq] at hs
    obtain ⟨diary, _, rfl⟩ := hs
    exact fun uid => ⟨nonempty_update diary.uid uid hd <| (hd diary.uid).some.erase diary.id, hp uid⟩
  case postDiary =>
    simp only [Journal.step, Option.bind_eq_bind, Option.bind_eq_some_iff, Option.pure_def,
      Option.some.injEq] at hs
    obtain ⟨_, _, _, _, _, ha, rfl⟩ := hs
    exact fun uid => ⟨hd uid, nonempty_add hp ha uid⟩
  case postCard =>
    simp only [Journal.step, Option.bind_eq_bind, Option.bind_eq_some_iff, Option.pure_def,
      Option.some.injEq] at hs
    obtain ⟨_, ha, rfl⟩ := hs
    exact fun uid => ⟨hd uid, nonempty_add hp ha uid⟩

theorem listed_of_run (r : Run (Fires (step json)) empty es j) : j.Listed :=
  r.invariant (I := Listed) Listed.step fun _ => ⟨⟨.empty⟩, ⟨.empty⟩⟩

end Journal

namespace OtherUserProfile

variable {viewer uid : Uid} {userData : Document} {followers following : List String}

-- Empty, too, are arrays that are absent or null.
def ArrayOrNull (v : Option Value) : Prop :=
  isNull v ∨ ∃ xs, v = some (.array xs)

-- The page agrees with the document and the posts, and with the counters that the user sees.
structure Agrees (viewer : Uid) (userData : Document) (posts : List Document)
    (page : OtherUserProfile) : Prop where
  isFollowing : page.isFollowing ↔ viewer ∈ coercedArray (userData "followers")
  requestSent : page.requestSent ↔ viewer ∈ coercedArray (userData "requests")
  followers   : page.followers = (coercedArray (userData "followers")).length
  following   : page.following = (coercedArray (userData "following")).length
  postLength  : page.postLength = posts.length
  counters    : ProfileTab.counters (some userData) posts = {
    followers  := some (coercedArray (userData "followers")).length
    following  := some (coercedArray (userData "following")).length
    postLength := some posts.length
  }

theorem getData_eq {page : OtherUserProfile} (hf : userData "followers" = some (.array followers))
    (hg : userData "following" = some (.array following)) (hr : ArrayOrNull (userData "requests"))
    (n : Nat) : getData (some (some userData, n)) page = { page with
      userData    := userData
      followers   := followers.length
      following   := following.length
      postLength  := n
      isFollowing := page.currentUser ∈ followers
      requestSent := page.currentUser ∈ coercedArray (userData "requests") } := by
  rcases hr with hn | ⟨requests, hr⟩
  case inl =>
    simp only [isNull, Bool.decide_or, Bool.or_eq_true, decide_eq_true_eq] at hn
    rcases hn with hn | hn <;>
      simp [getData, Id.run, hf, hg, hn, dynamicLength, dynamicContains, isNull, coercedArray] <;> rfl
  case inr =>
    simp [getData, Id.run, hf, hg, hr, dynamicLength, dynamicContains, isNull]
    rfl

theorem agrees_listing_iff {diaries posts : Collection DocId}
    (hg : userData "following" = some (.array following))
    (hf : ArrayOrNull (userData "followers")) (hr : ArrayOrNull (userData "requests"))
    (ld : Listing diaries) (lp : Listing posts) :
    Agrees viewer userData lp.docs
        (getData (some (some userData, ld.docs.length)) (initial viewer uid)) ↔
      (∃ followers, userData "followers" = some (.array followers)) ∧
        ld.docs.length = lp.docs.length := by
  constructor
  · intro h
    rcases hf with hn | ⟨followers, hf⟩
    case inl =>
      have hl := congrArg ProfileTab.Counters.followers h.counters
      simp only [isNull, Bool.decide_or, Bool.or_eq_true, decide_eq_true_eq] at hn
      rcases hn with hn | hn <;> simp [ProfileTab.counters, hn, dynamicLength] at hl
    case inr =>
      have hl := h.postLength
      rw [getData_eq hf hg hr] at hl
      exact ⟨⟨followers, hf⟩, Int.ofNat.inj hl⟩
  · rintro ⟨⟨followers, hf⟩, hn⟩
    rw [getData_eq hf hg hr]
    constructor
    case isFollowing => rw [hf]; exact decide_eq_true_iff
    case requestSent => exact decide_eq_true_iff
    all_goals simp [ProfileTab.counters, hf, hg, dynamicLength, hn]

-- After any history of diaries and posts, which can then be listed, the page agrees exactly when the
-- followers are there and the user has as many diaries as posts.
theorem agrees_iff {δ : Type} {json : JsonCoding δ} {j : Journal} {es : List (JournalEvent δ)}
    (r : Run (Fires (Journal.step json)) .empty es j)
    (hg : userData "following" = some (.array following))
    (hf : ArrayOrNull (userData "followers")) (hr : ArrayOrNull (userData "requests")) :
    j.Listed ∧ ∀ (ld : Listing (j.personalDiaries uid)) (lp : Listing (j.posts uid)),
      Agrees viewer userData lp.docs
          (getData (some (some userData, ld.docs.length)) (initial viewer uid)) ↔
        (∃ followers, userData "followers" = some (.array followers)) ∧
          ld.docs.length = lp.docs.length :=
  ⟨Journal.listed_of_run r, agrees_listing_iff hg hf hr⟩

def alice : Document :=
  newProfile "alice" "alice" "alice@a.com"

-- Alice has posted her only diary.
theorem agrees_of_posted : ∃ j, Run (Fires (Journal.step Journal.plainText)) .empty [
      .createDiary "alice" "diary" "Title" "text" 0 0 0 0,
      .openDiary "alice" "diary",
      .postDiary 0 "post" 0 1 1
    ] j ∧ ∀ (ld : Listing (j.personalDiaries "alice")) (lp : Listing (j.posts "alice")),
      Agrees "bob" alice lp.docs (getData (some (some alice, ld.docs.length)) (initial "bob" "alice")) := by
  obtain ⟨j, r, hd, hp⟩ : ∃ j, Run (Fires (Journal.step Journal.plainText)) .empty [
      .createDiary "alice" "diary" "Title" "text" 0 0 0 0,
      .openDiary "alice" "diary",
      .postDiary 0 "post" 0 1 1
    ] j ∧ (∀ id, (j.personalDiaries "alice" id).isSome ↔ id = "diary") ∧
      (∀ id, (j.posts "alice" id).isSome ↔ id = "post") := by
    refine ⟨_, .step rfl <| .step rfl <| .single rfl, fun id => ?_, fun id => ?_⟩
    all_goals simp [Journal.empty, Function.update_apply]
  refine ⟨j, r, fun ld lp => (agrees_iff r rfl ?_ ?_).right ld lp |>.mpr ⟨⟨_, rfl⟩, ?_⟩⟩
  · exact .inr ⟨_, rfl⟩
  · exact .inr ⟨_, rfl⟩
  · rw [ld.length_docs_of_unique hd, lp.length_docs_of_unique hp]

-- Her diary has not been posted.
theorem not_agrees_of_diary : ∃ j, Run (Fires (Journal.step Journal.plainText)) .empty
      [.createDiary "alice" "diary" "Title" "text" 0 0 0 0] j ∧ j.Listed ∧
    ∀ (ld : Listing (j.personalDiaries "alice")) (lp : Listing (j.posts "alice")),
      ¬Agrees "bob" alice lp.docs (getData (some (some alice, ld.docs.length)) (initial "bob" "alice")) := by
  obtain ⟨j, r, hd, hp⟩ : ∃ j, Run (Fires (Journal.step Journal.plainText)) .empty
      [.createDiary "alice" "diary" "Title" "text" 0 0 0 0] j ∧
      (∀ id, (j.personalDiaries "alice" id).isSome ↔ id = "diary") ∧ ∀ id, j.posts "alice" id = none :=
    ⟨_, .single rfl, by simp [Journal.empty, Function.update_apply], fun _ => rfl⟩
  refine ⟨j, r, Journal.listed_of_run r, fun ld lp h => ?_⟩
  have hl : (ld.docs.length : Int) = lp.docs.length := h.postLength
  rw [ld.length_docs_of_unique hd, lp.length_docs_of_empty hp] at hl
  cases hl

end OtherUserProfile
