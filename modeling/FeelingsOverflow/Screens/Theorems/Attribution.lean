import FeelingsOverflow.Screens.PosterCards

open Execution Firestore Reconcile
open Lifecycle (Widget advance answered)

namespace PosterCard

-- The picture and the name of a user.
def profileOf (users : Users) (uid : Uid) : Option (String × String) :=
  profile (users uid)

-- Those of the user who posted.
def posterOf (users : Users) (doc : Document) : Option (String × String) := do
  profileOf users (← doc.string "poster_uid")

-- The user whose document a state awaits.
def awaited (w : Widget Read.Result Fields) : Option Uid :=
  match (w.loaders[0]?.bind Async.pending : Option (Lifecycle.Op Read Fields)) with
  | some (.read (.user uid)) => some uid
  | _                        => none

-- A state is loading, or it has stopped doing so for good, or it has loaded.
inductive Phase (w : Widget Read.Result Fields) : Prop
  | loading (uid : Uid) : w.state.mounted → w.state.fields.isLoading →
    w.loaders = [awaitPoster uid] → Phase w
  | failed : w.state.fields.isLoading → w.loaders = [.throw] → Phase w
  | loaded : w.state.fields.isLoading = false → w.loaders = [.done ()] → Phase w

variable {users : Users} {w w' : Widget Read.Result Fields}

theorem build_eq_none : build s = none ↔ s.isLoading := by
  cases h : s.isLoading <;> simp [build, h]

-- A new state is loading, or it has no poster to be loaded.
theorem phase_create (doc : Document) : Phase (.create initial (getData doc)) ∧
    build (.create initial (getData doc) : Widget Read.Result Fields).state.fields = none := by
  cases h : doc.string "poster_uid"
  case none =>
    have hc : getData doc = Lifecycle.setState (fun s => { s with isLoading := true }) >>=
        fun _ => .throw := by simp [getData, h, Async.ofOption]
    rw [hc]
    exact ⟨.failed rfl rfl, rfl⟩
  case some uid =>
    have hc : getData doc = Lifecycle.setState (fun s => { s with isLoading := true }) >>=
        fun _ => awaitPoster uid := by simp [getData, h, Async.ofOption]
    rw [hc]
    exact ⟨.loading uid rfl rfl rfl, rfl⟩

-- A user's document completes the loading exactly when there is a profile in it.
theorem advance_setPoster {s : Lifecycle.State Fields} (hm : s.mounted) (hi : s.fields.isLoading)
    (userSnap : Option Document) :
    build (advance (setPoster userSnap) s).2.fields = profile userSnap ∧
    (advance (setPoster userSnap) s).1 = (profile userSnap).elim .throw fun _ => .done () := by
  obtain ⟨⟨_, _, _⟩, _, _, _⟩ := s
  obtain ⟨rfl, rfl⟩ := And.intro hm hi
  cases userSnap
  case none => exact ⟨rfl, rfl⟩
  case some d =>
    simp only [setPoster, profile, Async.ofOption, Async.done_bind, Option.bind_eq_bind,
      Option.bind_some]
    cases d.string "profilepic"
    case none => exact ⟨rfl, rfl⟩
    case some => cases d.string "username" <;> exact ⟨rfl, rfl⟩

-- All that an answer does to a state.
theorem resume_cases (h : Phase w) (hr : w.resume 0 (HomeTab.userAnswer users ok) = some w') :
    ∃ uid, awaited w = some uid ∧ build w.state.fields = none ∧ Phase w' ∧
      build w'.state.fields = if ok then profileOf users uid else none := by
  obtain ⟨c, c', hc, ha, rfl⟩ := Lifecycle.Widget.resume_eq_some_iff.mp hr
  cases h
  case loading uid hm hi hl =>
    obtain rfl : awaitPoster uid = c := by simpa [hl] using hc
    rw [awaitPoster, Lifecycle.answered_fetch, Option.some.injEq] at ha
    subst ha
    refine ⟨uid, by simp [awaited, hl]; rfl, build_eq_none.mpr hi, ?_⟩
    rw [hl]
    cases ok
    case false => exact ⟨.failed hi rfl, build_eq_none.mpr hi⟩
    case true =>
      have ⟨hb, he⟩ := advance_setPoster hm hi (users uid)
      refine ⟨?_, hb⟩
      cases hp : profile (users uid) <;> rw [hp] at hb he
      case none   => exact .failed (build_eq_none.mp hb) (congrArg ([·]) he)
      case some _ =>
        refine .loaded (Bool.eq_false_iff.mpr fun hi => ?_) (congrArg ([·]) he)
        exact Option.some_ne_none _ (hb.symm.trans <| build_eq_none.mpr hi)
  -- A state that has stopped loading awaits nothing.
  all_goals
    obtain rfl := by simpa [‹w.loaders = _›] using hc
    cases ha

open HomeTab (cardType cardData cardComponent FeedEvent Cards)

section

variable (users : Users)

-- Every card in view shows the user who posted what it shows, if it shows any.
def Attributed (s : Cards) : Prop :=
  ∀ i e shown, s.elements i = some e → build e.state.state.fields = some shown →
    posterOf users e.widget = some shown

-- A card that has loaded is replaced by none of its type by somebody else, and a card that is loading
-- awaits the document of the user who posted what it shows now.
def KeepsPoster (s : Cards) : FeedEvent → Prop
  | .rebuild posts => ∀ i e post shown, s.elements i = some e → posts[i]? = some post →
    cardType post = cardType e.widget → build e.state.state.fields = some shown →
    posterOf users post = posterOf users e.widget
  | .state i ok => ∀ e uid shown, s.elements i = some e → ok = true → awaited e.state = some uid →
    profileOf users uid = some shown → posterOf users e.widget = some shown
  | _ => True

end

theorem createState_eq (diary : Document) :
    (cardComponent users).createState diary = .create initial (PosterCard.getData diary) := by
  simp only [cardComponent, cardData]
  cases cardType diary <;> rfl

theorem phase_step {w w' : Widget Read.Result Fields} (h : Phase w)
    (hs : (cardComponent users).step w ok = some w') : Phase w' := by
  obtain ⟨_, _, _, h, _⟩ := resume_cases h hs
  exact h

theorem phases_step {s s' : Cards} (h : Everywhere (fun _ => Phase) s)
    (hs : step (cardComponent users) s e = some s') : Everywhere (fun _ => Phase) s' := by
  refine everywhere_state (fun diary => ?_) phase_step h hs
  rw [createState_eq]
  exact (phase_create diary).left

-- What is to hold of each card.
def ShowsPoster (users : Users) (diary : Document) (w : Widget Read.Result Fields) : Prop :=
  ∀ shown, build w.state.fields = some shown → posterOf users diary = some shown

theorem attributed_iff {s : Cards} : Attributed users s ↔ Everywhere (ShowsPoster users) s :=
  ⟨fun h i e he shown => h i e shown he, fun h i e shown he => h i e he shown⟩

theorem showsPoster_create (diary : Document) :
    ShowsPoster users diary ((cardComponent users).createState diary) := by
  intro shown hb
  rw [createState_eq, (phase_create diary).right] at hb
  cases hb

theorem keeps_iff {s : Cards} (hp : Everywhere (fun _ => Phase) s) (ha : Attributed users s)
    (hs : step (cardComponent users) s e = some s') :
    Keeps (cardComponent users) (ShowsPoster users) s e ↔ KeepsPoster users s e := by
  cases e
  case rebuild posts =>
    constructor
    · intro h i e post shown he hn ht hb
      have hp := h i e post he hn (by simp [Component.canUpdate, cardComponent, ht]) shown hb
      rw [hp, ha i e shown he hb]
    · intro h i e post he hn hu shown hb
      have ht : cardType e.widget = cardType post := of_decide_eq_true hu
      rw [h i e post shown he hn ht.symm hb]
      exact ha i e shown he hb
  case state i ok =>
    simp only [step, Option.bind_eq_bind, Option.bind_eq_some_iff] at hs
    obtain ⟨element, he, w, hw, _⟩ := hs
    obtain ⟨uid, hu, _, _, hb⟩ := resume_cases (hp i element he) hw
    constructor
    · rintro h e uid' shown he' rfl hu' hs
      obtain rfl := Option.some.inj (he.symm.trans he')
      obtain rfl := Option.some.inj (hu.symm.trans hu')
      exact h element w he hw shown (hb.trans hs)
    · intro h e w' he' hw' shown hs
      obtain rfl := Option.some.inj (he.symm.trans he')
      obtain rfl := Option.some.inj (hw.symm.trans hw')
      obtain ⟨ho, hs⟩ := Option.ite_none_right_eq_some.mp (hb.symm.trans hs)
      exact h element uid shown he ho hu hs
  all_goals exact Iff.rfl

-- The feed shows every post with the name and the picture of the user who posted it exactly in the
-- runs in which no card stays in place for the post of another user.
theorem attributed_run_iff (users : Users) (es : List FeedEvent) (s : Cards) :
    Run (Into (Attributed users) (Fires (step (cardComponent users)))) .empty es s ↔
      Run (Guarded (KeepsPoster users) (Fires (step (cardComponent users)))) .empty es s := by
  refine Run.into_iff_guarded (J := Everywhere fun _ => Phase) phases_step ?_ everywhere_empty ?_
  · intro s₁ e s₂ hp ha hs
    rw [attributed_iff, everywhere_step_iff showsPoster_create (attributed_iff.mp ha) hs]
    exact keeps_iff hp ha hs
  · exact attributed_iff.mpr everywhere_empty

-- A new post is put in front of the others. If its card is of the type of the one that was first, and
-- that one has loaded, it shows the poster of the latter.
theorem not_attributed_of_newPost {s s' : Cards} (ha : Attributed users s)
    (he : s.elements 0 = some e) (hb : build e.state.state.fields = some shown)
    (ht : cardType post = cardType e.widget) (hn : posterOf users post ≠ posterOf users e.widget)
    (hs : step (cardComponent users) s (.rebuild (post :: s.widgets)) = some s') :
    ¬Attributed users s' := by
  rw [attributed_iff, everywhere_step_iff showsPoster_create (attributed_iff.mp ha) hs]
  intro hk
  refine hn <| (hk 0 e post he rfl ?_ shown hb).trans (ha 0 e shown he hb).symm
  simp [Component.canUpdate, cardComponent, ht]

end PosterCard
