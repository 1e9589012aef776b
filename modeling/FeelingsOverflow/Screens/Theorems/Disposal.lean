import FeelingsOverflow.Screens.DashBoard
import FeelingsOverflow.Execution.Run

open Execution Firestore
open Lifecycle (Widget advance answered touches)

namespace HomeTab

-- Where the loader can be between two steps.
inductive Suspended (uid : Uid) : Loader Fields Unit → Prop
  | posts : Suspended uid (awaitPosts uid)
  | returned : c.pending = none → Suspended uid c

-- The user's document is found, and their followings are a list.
def Finishes (uid : Uid) (answers : Answers) (c : Loader Fields Unit) : Prop :=
  c = awaitPosts uid ∧ ((answers (.user uid)).bind FirebaseMethods.getPosts).isSome

variable {uid : Uid} {answers : Answers} {c c' : Loader Fields Unit}

theorem answered_awaitPosts : answered answers (awaitPosts uid) =
    some (match (answers (.user uid)).bind FirebaseMethods.getPosts with
      | some stream => do
        Lifecycle.assign fun s => { s with stream := some stream }
        Lifecycle.setState fun s => { s with isLoading := false }
      | none => .throw) := by
  rw [awaitPosts, Lifecycle.answered_fetch]
  cases answers (.user uid)
  case none => rfl
  case some userSnap =>
    simp only [Option.elim, Option.bind_some]
    cases FirebaseMethods.getPosts userSnap <;> rfl

theorem Suspended.resume (h : Suspended uid c) (hc : answered answers c = some c') :
    (∀ s, Suspended uid (advance c' s).1) ∧ (touches c' → Finishes uid answers c) := by
  cases h
  case returned h => simp [Lifecycle.answered_of_pending h] at hc
  case posts =>
    obtain rfl := Option.some.inj <| answered_awaitPosts.symm.trans hc
    cases hp : (answers (.user uid)).bind FirebaseMethods.getPosts
    case none => exact ⟨fun _ => .returned rfl, nofun⟩
    case some =>
      refine ⟨fun s => ?_, fun _ => ⟨rfl, by simp [hp]⟩⟩
      obtain ⟨_, _ | _, _, _⟩ := s <;> exact .returned rfl

theorem touches_of_finishes (h : Finishes uid answers c) (hc : answered answers c = some c') :
    touches c' := by
  obtain ⟨rfl, hp⟩ := h
  obtain ⟨stream, hp⟩ := Option.isSome_iff_exists.mp hp
  obtain rfl := Option.some.inj <| answered_awaitPosts.symm.trans hc
  rw [hp]
  rfl

end HomeTab

namespace Search

-- The name of the user is the last thing to be read.
def Finishes (uid : Uid) (answers : Answers) (c : Loader Fields Unit) : Prop :=
  c = block (awaitUsername uid) ∧ (RequestList.getUsername (answers (.user uid))).isSome

variable {uid : Uid} {answers : Answers} {c c' : Loader Fields Unit}

theorem touches_names (uids : List Uid) :
    touches (block (do awaitNames uids; awaitUsername uid)) = false := by
  cases uids <;> rfl

-- Where something fails, an alert is shown first. That throws once the tab has been disposed of.
theorem finishes_of_touches (h : Suspended uid c) (hc : answered answers c = some c')
    (ht : touches c') : Finishes uid answers c := by
  cases h.cases hc
  case username he hn => exact ⟨he, by simp [hn]⟩
  case names uids _   => exact absurd ht <| Bool.not_eq_true _ ▸ touches_names uids
  all_goals cases ht

theorem touches_of_finishes (h : Finishes uid answers c) (hc : answered answers c = some c') :
    touches c' := by
  obtain ⟨rfl, hn⟩ := h
  obtain ⟨username, hn⟩ := Option.isSome_iff_exists.mp hn
  obtain rfl := Option.some.inj <| (answered_getUsername ..).symm.trans hc
  rw [hn]
  rfl

end Search

namespace ProfileTab

inductive Suspended (uid : Uid) : Loader Fields Unit → Prop
  | user : Suspended uid (block (awaitUser uid))
  | personalDiaries (userSnap : Option Document) :
    Suspended uid (block (awaitPersonalDiaries uid userSnap))
  | returned : c.pending = none → Suspended uid c

-- The diaries are the last thing to be read, and the user's document has all that is shown of it.
def Finishes (uid : Uid) (answers : Answers) (c : Loader Fields Unit) : Prop :=
  ∃ userData, c = block (awaitPersonalDiaries uid (some userData)) ∧
    (answers (.personalDiaries uid)).isSome ∧ (dynamicLength (userData "followers")).isSome ∧
    (dynamicLength (userData "following")).isSome ∧ (userData.string "profilepic").isSome

variable {uid : Uid} {answers : Answers} {c c' : Loader Fields Unit}

theorem answered_block {c c' : Loader Fields Unit} (h : answered answers c = some c') :
    answered answers (block c) = some (block c') :=
  Lifecycle.answered_bind (Lifecycle.answered_tryCatch h _) _

theorem answered_awaitUser : answered answers (block (awaitUser uid)) =
    some (block (match answers (.user uid) with
      | some userSnap => awaitPersonalDiaries uid userSnap
      | none          => .throw)) := by
  rw [awaitUser, answered_block <| Lifecycle.answered_fetch ..]
  cases answers (.user uid) <;> rfl

theorem suspended_throw (s) : Suspended uid (advance (block .throw) s).1 := by
  obtain ⟨_, _ | _, _, _⟩ := s <;> exact .returned rfl

theorem answered_awaitPersonalDiaries (userSnap : Option Document) :
    answered answers (block (awaitPersonalDiaries uid userSnap)) =
      some (block (match answers (.personalDiaries uid) with
        | some postSnap => setData userSnap postSnap
        | none          => .throw)) := by
  rw [awaitPersonalDiaries, answered_block <| Lifecycle.answered_fetch ..]
  cases answers (.personalDiaries uid) <;> rfl

theorem touches_setData_iff (userSnap : Option Document) (postSnap : Nat) :
    touches (block (setData userSnap postSnap)) ↔ ∃ userData, userSnap = some userData ∧
      (dynamicLength (userData "followers")).isSome ∧
      (dynamicLength (userData "following")).isSome ∧ (userData.string "profilepic").isSome := by
  cases userSnap
  case none => simp [setData, Async.ofOption, Lifecycle.assign, block, touches]; rfl
  case some d =>
    simp only [Option.some.injEq, exists_eq_left', setData, Async.ofOption, Async.done_bind]
    cases dynamicLength (d "followers")
    case none => simp; rfl
    case some =>
      cases dynamicLength (d "following")
      case none => simp; rfl
      case some => cases d.string "profilepic" <;> simp <;> rfl

theorem suspended_setData (userSnap : Option Document) (postSnap : Nat) (s) :
    Suspended uid (advance (block (setData userSnap postSnap)) s).1 := by
  apply Suspended.returned
  obtain ⟨_, _ | _, _, _⟩ := s
  all_goals
    cases userSnap
    case none => rfl
    case some d =>
      simp only [setData, Async.ofOption, Async.done_bind]
      cases dynamicLength (d "followers")
      case none => rfl
      case some =>
        cases dynamicLength (d "following")
        case none => rfl
        case some => cases d.string "profilepic" <;> rfl

theorem Suspended.resume (h : Suspended uid c) (hc : answered answers c = some c') :
    (∀ s, Suspended uid (advance c' s).1) ∧ (touches c' → Finishes uid answers c) := by
  cases h
  case returned h => simp [Lifecycle.answered_of_pending h] at hc
  case user =>
    obtain rfl := Option.some.inj <| answered_awaitUser.symm.trans hc
    cases answers (.user uid)
    case none          => exact ⟨suspended_throw, nofun⟩
    case some userSnap => exact ⟨fun _ => .personalDiaries userSnap, nofun⟩
  case personalDiaries userSnap =>
    obtain rfl := Option.some.inj <| (answered_awaitPersonalDiaries userSnap).symm.trans hc
    cases hp : answers (.personalDiaries uid)
    case none => exact ⟨suspended_throw, nofun⟩
    case some postSnap =>
      refine ⟨suspended_setData userSnap postSnap, fun ht => ?_⟩
      obtain ⟨userData, rfl, hd⟩ := touches_setData_iff .. |>.mp ht
      exact ⟨userData, rfl, by simp [hp], hd⟩

theorem touches_of_finishes (h : Finishes uid answers c) (hc : answered answers c = some c') :
    touches c' := by
  obtain ⟨userData, rfl, hp, hd⟩ := h
  obtain ⟨postSnap, hp⟩ := Option.isSome_iff_exists.mp hp
  obtain rfl := Option.some.inj <| (answered_awaitPersonalDiaries _).symm.trans hc
  rw [hp]
  exact touches_setData_iff .. |>.mpr ⟨userData, rfl, hd⟩

end ProfileTab

namespace Tab

def Suspended (uid : Uid) : (tab : Tab) → Loader tab.Fields Unit → Prop
  | homeTab, c      => HomeTab.Suspended uid c
  | searchTab, c    => Search.Suspended uid c
  | myDiariesTab, c => c.pending = none
  | profileTab, c   => ProfileTab.Suspended uid c

-- The answer is all that was missing for a loader to finish loading.
def Finishes (uid : Uid) (answers : Answers) : (tab : Tab) → Loader tab.Fields Unit → Prop
  | homeTab, c      => HomeTab.Finishes uid answers c
  | searchTab, c    => Search.Finishes uid answers c
  | myDiariesTab, _ => False
  | profileTab, c   => ProfileTab.Finishes uid answers c

variable {uid : Uid} {answers : Answers} {tab : Tab} {c c' : Loader tab.Fields Unit}

theorem suspended_getData (uid : Uid) (tab : Tab) (s) :
    tab.Suspended uid (advance (tab.getData uid) s).1 := by
  cases tab
  case homeTab =>
    obtain ⟨_, _ | _, _, _⟩ := s
    case false => exact .returned rfl
    case true  => exact .posts
  case searchTab =>
    obtain ⟨_, _ | _, _, _⟩ := s
    case false => exact .returned rfl
    case true  => exact .requests
  case myDiariesTab => rfl
  case profileTab =>
    obtain ⟨_, _ | _, _, _⟩ := s
    case false => exact .returned rfl
    case true  => exact .user

theorem Suspended.resume (h : tab.Suspended uid c) (hc : answered answers c = some c') :
    (∀ s, tab.Suspended uid (advance c' s).1) ∧ (touches c' ↔ tab.Finishes uid answers c) := by
  cases tab
  case homeTab =>
    have ⟨hs, ht⟩ := HomeTab.Suspended.resume h hc
    exact ⟨hs, ht, (HomeTab.touches_of_finishes · hc)⟩
  case searchTab =>
    exact ⟨(Search.Suspended.cases h hc).suspended, Search.finishes_of_touches h hc,
      (Search.touches_of_finishes · hc)⟩
  case myDiariesTab => simp [Lifecycle.answered_of_pending h] at hc
  case profileTab =>
    have ⟨hs, ht⟩ := ProfileTab.Suspended.resume h hc
    exact ⟨hs, ht, (ProfileTab.touches_of_finishes · hc)⟩

end Tab

namespace DashBoard

-- No loader has called `setState` on a disposed state.
def Untouched (s : DashBoard) : Prop :=
  ∀ screen ∈ s.screens, screen.2.state.touched = false

-- No loader finishes loading on a disposed state.
def Quiet (uid : Uid) (s : DashBoard) : DashBoardEvent → Prop
  | .complete i j answers => ∀ screen, s.screens[i]? = some screen →
    screen.2.state.mounted ∨ ∀ c, screen.2.loaders[j]? = some c → ¬screen.1.Finishes uid answers c
  | _ => True

def Suspended (uid : Uid) (s : DashBoard) : Prop :=
  ∀ screen ∈ s.screens, ∀ c ∈ screen.2.loaders, screen.1.Suspended uid c

variable {uid : Uid} {s s' : DashBoard} {e : DashBoardEvent}

theorem create_touched (uid : Uid) (tab : Tab) : (create uid tab).2.state.touched = false :=
  Lifecycle.advance_touched_of_mounted rfl

theorem suspended_create (uid : Uid) (tab : Tab) :
    ∀ c ∈ (create uid tab).2.loaders, tab.Suspended uid c := by
  intro c hc
  obtain rfl := List.mem_singleton.mp hc
  exact tab.suspended_getData uid _

-- All that a step can do. The answer to a read is followed up to the next read.
inductive Stepped (uid : Uid) (s : DashBoard) : DashBoardEvent → DashBoard → Prop
  | stayed : Stepped uid s (.onTap s.currentIndex) s
  | switched (index : Tab) : Stepped uid s (.onTap index)
    { currentIndex := index, screens := s.screens.map dispose ++ [create uid index] }
  | completed {screen : Screen} {c c' : Loader screen.1.Fields Unit} (i j : Nat) (answers : Answers) :
    s.screens[i]? = some screen → screen.2.loaders[j]? = some c → answered answers c = some c' →
    Stepped uid s (.complete i j answers) { s with
      screens := s.screens.set i ⟨screen.1, (advance c' screen.2.state).2,
        screen.2.loaders.set j (advance c' screen.2.state).1⟩ }
  | edited {widget : Widget Read.Result ProfileTab.Fields} (i : Nat) :
    s.screens[i]? = some ⟨.profileTab, widget⟩ → widget.state.mounted →
    Stepped uid s (.edited i) { s with
      screens := s.screens.set i ⟨.profileTab, widget.launch (ProfileTab.getData uid)⟩ }

theorem step_cases (hs : s.step uid e = some s') : s.Stepped uid e s' := by
  cases e
  case onTap index =>
    simp only [step] at hs
    split at hs
    case isTrue hi =>
      obtain rfl := Option.some.inj hs
      exact hi ▸ .stayed
    case isFalse => exact Option.some.inj hs ▸ .switched index
  case complete i j answers =>
    simp only [step, Option.bind_eq_bind, Option.bind_eq_some_iff] at hs
    obtain ⟨screen, hi, widget, hw, hs⟩ := hs
    obtain rfl := Option.some.inj hs
    obtain ⟨c, c', hj, hc, rfl⟩ := Lifecycle.Widget.resume_eq_some_iff.mp hw
    exact .completed i j answers hi hj hc
  case edited i =>
    simp only [step] at hs
    split at hs
    case h_2 => simp at hs
    case h_1 widget hi =>
      simp only [Option.ite_none_right_eq_some, Option.some.injEq] at hs
      obtain ⟨hm, rfl⟩ := hs
      exact .edited i hi hm

theorem forall_mem_switched {P : Screen → Prop} (h : ∀ screen ∈ s.screens, P (dispose screen))
    (hc : P (create uid index)) : ∀ screen ∈ s.screens.map dispose ++ [create uid index], P screen :=
  List.forall_mem_append.mpr ⟨List.forall_mem_map.mpr h, List.forall_mem_singleton.mpr hc⟩

theorem Suspended.step (h : s.Suspended uid) (hs : s.step uid e = some s') : s'.Suspended uid := by
  cases step_cases hs
  case stayed         => exact h
  case switched index => exact forall_mem_switched h <| suspended_create uid index
  case completed i j answers hi hj hc =>
    have hl := h _ <| List.mem_of_getElem? hi
    have ⟨hn, _⟩ := (hl _ <| List.mem_of_getElem? hj).resume hc
    exact List.forall_mem_set h <| List.forall_mem_set hl <| hn _
  case edited widget i hi _ =>
    have hc := List.forall_mem_singleton.mpr <| Tab.suspended_getData uid .profileTab widget.state
    exact List.forall_mem_set h <| List.forall_mem_append.mpr ⟨h _ <| List.mem_of_getElem? hi, hc⟩

theorem untouched_set_iff {i : Nat} {screen screen' : Screen} (h : s.Untouched)
    (hi : s.screens[i]? = some screen) :
    Untouched { s with screens := s.screens.set i screen' } ↔ screen'.2.state.touched = false := by
  have ⟨hl, _⟩ := List.getElem?_eq_some_iff.mp hi
  constructor
  case mp  => exact fun hu => hu screen' <| List.mem_set hl screen'
  case mpr => exact List.forall_mem_set h

theorem untouched_step_iff (hd : s.Suspended uid) (h : s.Untouched) (hs : s.step uid e = some s') :
    s'.Untouched ↔ s.Quiet uid e := by
  cases step_cases hs
  case stayed         => exact iff_of_true h trivial
  case switched index =>
    exact iff_of_true (forall_mem_switched h <| create_touched uid index) trivial
  case completed screen c c' i j answers hi hj hc =>
    have hm := List.mem_of_getElem? hi
    have ⟨_, ht⟩ := (hd screen hm c <| List.mem_of_getElem? hj).resume hc
    rw [untouched_set_iff h hi]
    simp only [Quiet, hi, hj, Option.some.injEq, forall_eq', ←ht]
    cases hm' : screen.2.state.mounted
    case true  => simp [Lifecycle.advance_touched_of_mounted hm', h screen hm]
    case false => simp [Lifecycle.advance_touched_of_disposed hm', h screen hm]
  case edited widget i hi hm =>
    refine iff_of_true ?_ trivial
    rw [untouched_set_iff h hi]
    exact (Lifecycle.advance_touched_of_mounted hm).trans <| h _ (List.mem_of_getElem? hi)

-- No loader calls `setState` on a disposed state in exactly the runs in which none finishes loading
-- on one.
theorem untouched_run_iff : Run (Into Untouched (Fires (step uid))) (start uid) es s ↔
    Run (Guarded (Quiet uid) (Fires (step uid))) (start uid) es s := by
  refine Run.into_iff_guarded (J := Suspended uid) Suspended.step untouched_step_iff ?_ ?_
  · intro screen hm
    obtain rfl := List.mem_singleton.mp hm
    exact suspended_create uid .homeTab
  · intro screen hm
    obtain rfl := List.mem_singleton.mp hm
    exact create_touched uid .homeTab

-- Alice opens the search tab while her feed is still loading.
theorem not_untouched_of_switched : ∃ s, Run (Fires (step "alice")) (start "alice")
    [.onTap .searchTab, .complete 0 0 fun
      | .user uid          => some (some (FirebaseMethods.newProfile uid uid uid))
      | .personalDiaries _ => some 0] s ∧ ¬s.Untouched := by
  refine ⟨_, .step rfl <| .single rfl, fun h => ?_⟩
  have ht := h _ List.mem_cons_self
  cases ht

end DashBoard
