import FeelingsOverflow.Screens.Navigation

open Execution

namespace Navigation

-- The screens of a well-formed stack: each one has been opened from the one below it.
inductive Path : List Page → Prop
  | loginScreen : Path [.loginScreen]
  | dashBoard   : Path [.dashBoard tab]
  | push        : Path (p :: ps) → q ∈ p.offers → Path (q :: p :: ps)

-- How many screens can be below a screen.
def Page.depths : Page → List Nat
  | loginScreen | dashBoard _ => [0]
  | diaryPostingScreen        => [2]
  | snipScreen                => [3]
  | alertDialog               => [2]
  | otherUserProfile          => [1, 2]
  | _                         => [1]

variable {p q : Page} {ps : List Page} {s s' : Navigation}

namespace Page

theorem depths_offers (h : q ∈ p.offers) (hd : d ∈ p.depths) : d + 1 ∈ q.depths := by
  cases p
  case dashBoard tab => cases tab <;> grind [offers, depths]
  all_goals grind [offers, depths]

theorem depth_le (h : d ∈ p.depths) : d ≤ 3 := by
  cases p <;> simp [depths] at h <;> omega

theorem le_of_closes (h : n ∈ p.closes) (hd : d ∈ p.depths) : n ≤ d := by
  cases p <;> simp [closes, depths] at h hd <;> omega

theorem not_offers_dashBoard : .dashBoard tab ∉ p.offers := by
  cases p
  case dashBoard tab => cases tab <;> simp [offers]
  all_goals simp [offers]

end Page

namespace Path

theorem depth (h : Path (p :: ps)) : ps.length ∈ p.depths := by
  generalize hs : p :: ps = qs at h
  induction h generalizing p ps
  case push ho hi =>
    obtain ⟨rfl, rfl⟩ := List.cons.inj hs
    exact Page.depths_offers ho <| hi rfl
  all_goals
    obtain ⟨rfl, rfl⟩ := List.cons.inj hs
    simp [Page.depths]

theorem eq_nil (h : Path (p :: ps)) (hp : p.depths = [0]) : ps = [] := by
  simpa [hp] using h.depth

theorem length_le (h : Path ps) : ps.length ≤ 4 := by
  cases ps
  case nil  => simp
  case cons => exact Nat.succ_le_succ <| Page.depth_le h.depth

theorem ne_nil (h : Path ps) : ps ≠ [] := by
  cases h <;> simp

theorem drop (h : Path ps) (hn : n < ps.length) : Path (ps.drop n) := by
  induction h generalizing n
  case push h ho hi =>
    cases n
    case zero   => exact h.push ho
    case succ n => exact hi <| Nat.lt_of_succ_lt_succ hn
  case loginScreen => exact Nat.lt_one_iff.mp hn ▸ .loginScreen
  case dashBoard   => exact Nat.lt_one_iff.mp hn ▸ .dashBoard

end Path

namespace Await

variable {a : Await}

theorem path_pushes (h : a.pushes = some p) : Path [p] := by
  cases a <;> cases h <;> constructor

theorem depths_pushes (h : a.pushes = some p) : p.depths = [0] := by
  cases a <;> cases h <;> rfl

theorem currentUser_pushes (h : a.pushes = some (.dashBoard tab)) : a.currentUser user = true := by
  cases a <;> cases h <;> rfl

theorem currentUser_of_ne (h : a ≠ .signOut) (hu : user = true) : a.currentUser user = true := by
  cases a <;> first | exact absurd rfl h | rfl | exact hu

end Await

-- What a step does.
inductive Step (s : Navigation) : Event → Navigation → Prop
  | push : s.routes = route :: rest → page ∈ route.page.offers → Step s (.push page) (s.push page)
  | back : 1 < s.routes.length → Step s .back (s.pop 1)
  | close : s.routes = route :: rest → n ∈ route.page.closes → Step s (.close n) (s.pop n)
  | stay : Step s (.onTap index) s
  | select : s.routes = ⟨context, .dashBoard current⟩ :: rest →
    Step s (.onTap index) (s.select index rest)
  | start : s.routes = route :: rest → a ∈ route.page.starts →
    Step s (.start a) (s.await ⟨route.context, a⟩)
  | completed : s.handlers[i]? = some h → Step s (.complete i true) ((s.drop i).completed h)
  | failed : Step s (.complete i false) (s.drop i)
  | dispose : Step s (.dispose context) { s with leaving := s.leaving.erase context }

theorem step_cases (h : s.step e = some s') : s.Step e s' := by
  cases e <;> simp only [step, Option.bind_eq_bind, Option.bind_eq_some_iff, Option.pure_def,
    Option.ite_none_right_eq_some, Option.some.injEq, List.head?_eq_some_iff] at h
  case push =>
    obtain ⟨route, ⟨rest, hr⟩, ⟨_, ho⟩, rfl⟩ := h
    exact .push hr ho
  case back => exact h.right ▸ .back h.left
  case close =>
    obtain ⟨route, ⟨rest, hr⟩, ⟨_, hc⟩, rfl⟩ := h
    exact .close hr hc
  case onTap index =>
    split at h
    case h_2 => cases h
    case h_1 hr =>
      rw [Option.some.injEq] at h
      split at h
      case isTrue  => exact h ▸ .stay
      case isFalse => exact h ▸ .select hr
  case start =>
    obtain ⟨route, ⟨rest, hr⟩, ⟨_, ha, _⟩, rfl⟩ := h
    exact .start hr ha
  case complete i ok =>
    obtain ⟨handler, hh, rfl⟩ := h
    cases ok
    case true  => exact .completed hh
    case false => exact .failed
  case dispose => exact h.right ▸ .dispose

def pages (s : Navigation) : List Page :=
  s.routes.map Route.page

-- The stack is well-formed, and what is for the current user is only on it if there is one.
structure Consistent (s : Navigation) : Prop where
  path        : Path s.pages
  currentUser : .dashBoard tab ∈ s.pages → s.currentUser

-- A handler that succeeds leaves behind what it is to leave behind.
def Admits (s : Navigation) (h : Handler) : Prop :=
  if s.mounted h.context then
    match h.await.pushes with
    | some _ => s.routes.length = h.await.pops
    | none   => h.await.pops < s.routes.length
  else h.await = .signOut → ∀ tab, .dashBoard tab ∉ s.pages

def Settled (s : Navigation) : Event → Prop
  | .complete i true => ∀ h, s.handlers[i]? = some h → s.Admits h
  | _                => True

@[simp] theorem pages_push (page : Page) : (s.push page).pages = page :: s.pages := rfl

@[simp] theorem pages_pop (n : Nat) : (s.pop n).pages = s.pages.drop n :=
  List.map_drop

@[simp] theorem length_pages : s.pages.length = s.routes.length :=
  List.length_map _

theorem pages_eq_cons (h : s.routes = route :: rest) :
    s.pages = route.page :: rest.map Route.page := by
  rw [pages, h, List.map_cons]

namespace Consistent

open Await (path_pushes depths_pushes currentUser_pushes currentUser_of_ne)

theorem initial (user : Bool) : Consistent (initial user) where
  path        := .loginScreen
  currentUser := by simp [pages, Navigation.initial]

theorem of_eq (h : Consistent s) (hp : s'.pages = s.pages) (hc : s'.currentUser = s.currentUser) :
    Consistent s' where
  path          := hp ▸ h.path
  currentUser t := hc ▸ h.currentUser (hp ▸ t)

theorem push (h : Consistent s) (hr : s.routes = route :: rest) (ho : q ∈ route.page.offers) :
    Consistent (s.push q) where
  path := by
    rw [pages_push, pages_eq_cons hr]
    exact .push (pages_eq_cons hr ▸ h.path) ho
  currentUser ht := by
    rw [pages_push, List.mem_cons] at ht
    rcases ht with rfl | ht
    case inl => exact absurd ho Page.not_offers_dashBoard
    case inr => exact h.currentUser ht

theorem pop (h : Consistent s) (hn : n < s.routes.length) : Consistent (s.pop n) where
  path           := pages_pop n ▸ h.path.drop (length_pages ▸ hn)
  currentUser ht := h.currentUser <| List.mem_of_mem_drop (pages_pop n ▸ ht)

theorem close (h : Consistent s) (hr : s.routes = route :: rest) (hc : n ∈ route.page.closes) :
    Consistent (s.pop n) := by
  refine h.pop ?_
  have hd := (pages_eq_cons hr ▸ h.path).depth
  rw [hr, List.length_cons, Nat.lt_succ_iff]
  exact Page.le_of_closes hc (List.length_map Route.page ▸ hd)

theorem select (h : Consistent s) (hr : s.routes = ⟨context, .dashBoard current⟩ :: rest) :
    Consistent (s.select index rest) := by
  have hd := (pages_eq_cons hr ▸ h.path).depth
  obtain rfl : rest = [] := by simpa [Page.depths] using hd
  have ht : .dashBoard current ∈ s.pages := by simp [pages_eq_cons hr]
  exact ⟨.dashBoard, fun _ => h.currentUser ht⟩

theorem authenticate (h : Consistent s) (ha : a ≠ .signOut) : Consistent (s.authenticate a) where
  path           := h.path
  currentUser ht := currentUser_of_ne ha <| h.currentUser ht

-- Nothing that is pushed after a sign-in or a sign-out has been opened from another screen.
theorem leave_iff (h : Consistent s) (a : Await) :
    Consistent ((s.authenticate a).leave a) ↔
      match a.pushes with
      | some _ => s.routes.length = a.pops
      | none   => a.pops < s.routes.length := by
  have hl : (s.authenticate a).routes.length = s.routes.length := rfl
  cases ha : a.pushes
  case none =>
    have hc : Consistent (s.authenticate a) :=
      h.authenticate fun he => by cases he ▸ ha
    simp only [leave, ha]
    constructor
    · intro hp
      have hn := hp.path.ne_nil
      rwa [pages_pop, Ne, List.drop_eq_nil_iff, not_le, length_pages] at hn
    · exact hc.pop
  case some page =>
    simp only [leave, ha, hl]
    split
    case isFalse hn =>
      refine ⟨fun hp => absurd ?_ hp.path.ne_nil, fun he => absurd he.ge hn⟩
      rw [pages_pop, List.drop_eq_nil_iff, length_pages]
      exact (Nat.not_le.mp hn).le
    case isTrue hn =>
      constructor
      · intro hp
        have he : ((s.authenticate a).pop a.pops).pages = [] := hp.path.eq_nil <| depths_pushes ha
        rw [pages_pop, List.drop_eq_nil_iff, length_pages] at he
        exact he.antisymm hn
      · intro he
        have hp : (((s.authenticate a).pop a.pops).push page).pages = [page] := by
          rw [pages_push, pages_pop, List.drop_eq_nil_iff.mpr]
          exact length_pages.trans he |>.le
        refine ⟨hp ▸ path_pushes ha, fun ht => ?_⟩
        obtain rfl := List.mem_singleton.mp <| hp ▸ ht
        exact currentUser_pushes ha

theorem proceed_iff (handler : Handler) : Consistent (s.proceed handler) ↔ Consistent s := by
  rw [proceed]
  split
  case h_1 => exact ⟨fun h => ⟨h.path, h.currentUser⟩, fun h => ⟨h.path, h.currentUser⟩⟩
  case h_2 => exact Iff.rfl

theorem completed_iff (h : Consistent s) (handler : Handler) :
    Consistent (s.completed handler) ↔ s.Admits handler := by
  rw [completed, Admits]
  split
  case isTrue => rw [proceed_iff, h.leave_iff]
  case isFalse =>
    constructor
    · intro hc he tab ht
      have hu : handler.await.currentUser s.currentUser = true := hc.currentUser ht
      rw [he] at hu
      cases hu
    · intro ha
      by_cases he : handler.await = .signOut
      case pos => exact ⟨h.path, fun {tab} ht => absurd ht <| ha he tab⟩
      case neg => exact h.authenticate he

end Consistent

theorem Consistent.step_iff (h : Consistent s) (hs : s.step e = some s') :
    Consistent s' ↔ s.Settled e := by
  cases step_cases hs
  case push hr ho  => exact iff_of_true (h.push hr ho) trivial
  case back hn     => exact iff_of_true (h.pop hn) trivial
  case close hr hc => exact iff_of_true (h.close hr hc) trivial
  case stay        => exact iff_of_true h trivial
  case select hr   => exact iff_of_true (h.select hr) trivial
  case start       => exact iff_of_true ⟨h.path, h.currentUser⟩ trivial
  case failed      => exact iff_of_true ⟨h.path, h.currentUser⟩ trivial
  case dispose     => exact iff_of_true ⟨h.path, h.currentUser⟩ trivial
  case completed i handler hh =>
    have hd : Consistent (s.drop i) := ⟨h.path, h.currentUser⟩
    rw [hd.completed_iff]
    exact ⟨fun ha _ he => Option.some.inj (hh.symm.trans he) ▸ ha, fun hs => hs handler hh⟩

-- The stack stays well-formed, and never shows anything of the current user without one, exactly in
-- the runs in which each handler that succeeds finds as many routes as it pops, or more if it pushes
-- nothing, and nobody signs out from a screen that is gone.
theorem consistent_run_iff (user : Bool) (es : List Event) (s : Navigation) :
    Run (Into Consistent (Fires step)) (initial user) es s ↔
      Run (Guarded Settled (Fires step)) (initial user) es s :=
  Run.into_iff_guarded (J := fun _ => True) (fun _ _ => trivial) (fun _ h hs => h.step_iff hs)
    trivial (.initial user)

-- Who signs out and opens another screen meanwhile closes that one instead of the dashboard.
def interrupted : List Event := [
  .start .logIn, .complete 0 true, .onTap .profileTab, .start .signOut, .push .followerScreen,
  .complete 0 true
]

theorem not_consistent_of_interrupted : ∃ s, Run (Fires step) (initial false) interrupted s ∧
    s.pages = [.loginScreen, .dashBoard .profileTab] ∧ s.currentUser = false ∧ ¬Consistent s := by
  have ⟨s, r, hp, hu⟩ : ∃ s, Run (Fires step) (initial false) interrupted s ∧
      s.pages = [.loginScreen, .dashBoard .profileTab] ∧ s.currentUser = false :=
    ⟨_, .step rfl <| .step rfl <| .step rfl <| .step rfl <| .step rfl <| .single rfl, rfl, rfl⟩
  refine ⟨s, r, hp, hu, fun h => ?_⟩
  have hd : .dashBoard .profileTab ∈ s.pages := by simp [hp]
  exact Bool.false_ne_true <| hu.symm.trans <| h.currentUser hd

-- What a screen awaits, or goes on to await.
def Page.Awaits (p : Page) (a : Await) : Prop :=
  a ∈ p.starts ∨ p = .registrationScreen ∧ a = .signIn

-- A handler belongs to the screen of its context, as long as that one has not been popped.
structure Owned (s : Navigation) : Prop where
  nodup  : (s.routes.map Route.context).Nodup
  fresh  : ∀ route ∈ s.routes, route.context < s.next
  old    : ∀ h ∈ s.handlers, h.context < s.next
  awaits : ∀ h ∈ s.handlers, ∀ route ∈ s.routes, route.context = h.context →
    route.page.Awaits h.await

-- A handler that succeeds finds the screen in view on which it has been started.
def OnTop (s : Navigation) : Event → Prop
  | .complete i true => ∀ h, s.handlers[i]? = some h →
    s.routes.head?.map Route.context = some h.context
  | _ => True

namespace Page

theorem eq_registrationScreen (h : .createUser ∈ p.starts) : p = .registrationScreen := by
  cases p
  case registrationScreen => rfl
  case dashBoard tab      => cases tab <;> simp [starts] at h
  all_goals simp [starts] at h

theorem pops_of_awaits (h : p.Awaits a) (hd : d ∈ p.depths) :
    match a.pushes with
    | some _ => d + 1 = a.pops
    | none   => a.pops < d + 1 := by
  rcases h with h | ⟨rfl, rfl⟩
  case inr => simpa [depths, Await.pushes, Await.pops] using hd
  case inl =>
    cases p
    case dashBoard tab => cases tab <;> grind [starts, depths, Await.pushes, Await.pops]
    all_goals grind [starts, depths, Await.pushes, Await.pops]

end Page

namespace Owned

theorem initial (user : Bool) : Owned (initial user) where
  nodup  := by simp [Navigation.initial]
  fresh  := by simp [Navigation.initial]
  old    := by simp [Navigation.initial]
  awaits := by simp [Navigation.initial]

-- A page in a route of its own, on some of the routes that there are.
theorem push (h : Owned s) (page : Page) (hs : rest.Sublist s.routes) : Owned {
    s with routes := ⟨s.next, page⟩ :: rest, next := s.next + 1
  } where
  nodup := by
    refine List.nodup_cons.mpr ⟨fun hm => ?_, h.nodup.sublist <| hs.map _⟩
    obtain ⟨route, hr, he⟩ := List.mem_map.mp hm
    exact (h.fresh route <| hs.mem hr).ne he
  fresh := by
    intro route hr
    rcases List.mem_cons.mp hr with rfl | hr
    case inl => exact Nat.lt_succ_self _
    case inr => exact (h.fresh route <| hs.mem hr).trans <| Nat.lt_succ_self _
  old handler hh := (h.old handler hh).trans <| Nat.lt_succ_self _
  awaits := by
    intro handler hh route hr he
    rcases List.mem_cons.mp hr with rfl | hr
    case inl => exact absurd he.symm (h.old handler hh).ne
    case inr => exact h.awaits handler hh route (hs.mem hr) he

theorem pop (h : Owned s) (n : Nat) : Owned (s.pop n) where
  nodup  := h.nodup.sublist <| (List.drop_sublist n _).map _
  fresh  := fun route hr => h.fresh route <| List.mem_of_mem_drop hr
  old    := h.old
  awaits := fun handler hh route hr => h.awaits handler hh route <| List.mem_of_mem_drop hr

theorem drop (h : Owned s) (i : Nat) : Owned (s.drop i) where
  nodup  := h.nodup
  fresh  := h.fresh
  old    := fun handler hh => h.old handler <| List.mem_of_mem_eraseIdx hh
  awaits := fun handler hh => h.awaits handler <| List.mem_of_mem_eraseIdx hh

theorem await (h : Owned s) (hn : handler.context < s.next)
    (ha : ∀ route ∈ s.routes, route.context = handler.context → route.page.Awaits handler.await) :
    Owned (s.await handler) where
  nodup := h.nodup
  fresh := h.fresh
  old := by
    intro handler' hh
    rcases List.mem_append.mp hh with hh | hh
    case inl => exact h.old handler' hh
    case inr => exact List.mem_singleton.mp hh ▸ hn
  awaits := by
    intro handler' hh
    rcases List.mem_append.mp hh with hh | hh
    case inl => exact h.awaits handler' hh
    case inr => exact List.mem_singleton.mp hh ▸ ha

theorem leave (h : Owned s) (a : Await) : Owned (s.leave a) := by
  rw [Navigation.leave]
  split
  case h_2 => exact h.pop _
  case h_1 page _ =>
    split
    case isFalse => exact h.pop _
    case isTrue  => exact h.pop _ |>.push page <| .refl _

theorem completed (h : Owned s) (hn : handler.context < s.next)
    (ha : ∀ route ∈ s.routes, route.context = handler.context → route.page.Awaits handler.await) :
    Owned (s.completed handler) := by
  have hu : Owned (s.authenticate handler.await) := ⟨h.nodup, h.fresh, h.old, h.awaits⟩
  rw [Navigation.completed]
  split
  case isFalse => exact hu
  case isTrue =>
    rw [proceed]
    split
    case h_2 => exact hu.leave _
    case h_1 a hc =>
      obtain ⟨context, await⟩ := handler
      obtain rfl : await = .createUser := by cases await <;> first | rfl | cases hc
      obtain rfl := Option.some.inj hc
      refine (hu.leave _).await hn fun route hr he => ?_
      rcases ha route hr he with ha | ⟨_, ha⟩
      case inr => cases ha
      case inl => exact .inr ⟨Page.eq_registrationScreen ha, rfl⟩

theorem step (h : Owned s) (hs : s.step e = some s') : Owned s' := by
  cases step_cases hs
  case push      => exact h.push _ <| .refl _
  case back      => exact h.pop _
  case close     => exact h.pop _
  case stay      => exact h
  case select hr => exact h.push _ <| hr ▸ List.sublist_cons_self ..
  case failed    => exact h.drop _
  case dispose   => exact ⟨h.nodup, h.fresh, h.old, h.awaits⟩
  case start route rest a hr ha =>
    have hm : route ∈ s.routes := by simp [hr]
    refine h.await (h.fresh route hm) fun route' hr' he => ?_
    obtain rfl := List.inj_on_of_nodup_map h.nodup hr' hm he
    exact .inl ha
  case completed i handler hh =>
    have hm := List.mem_of_getElem? hh
    exact h.drop i |>.completed (h.old handler hm) (h.awaits handler hm)

-- The screen in view is at the depth that its handlers expect.
theorem admits (h : Owned s) (hs : Consistent s) (hh : handler ∈ s.handlers)
    (ht : s.routes.head?.map Route.context = some handler.context) : s.Admits handler := by
  obtain ⟨route, hr, he⟩ := Option.map_eq_some_iff.mp ht
  obtain ⟨rest, hr⟩ := List.head?_eq_some_iff.mp hr
  have hm : route ∈ s.routes := by simp [hr]
  have hd := (pages_eq_cons hr ▸ hs.path).depth
  rw [List.length_map] at hd
  rw [Admits, if_pos <| .inl <| List.mem_map.mpr ⟨route, hm, he⟩, hr, List.length_cons]
  exact Page.pops_of_awaits (h.awaits handler hh route hm he) hd

end Owned

-- As long as everybody waits on the screen that is waiting, the stack is well-formed, there are never
-- more than four screens on it, and none of those that are for the current user without one.
theorem consistent_of_run (user : Bool)
    (r : Run (Guarded OnTop (Fires step)) (initial user) es s) :
    Consistent s ∧ s.routes.length ≤ 4 := by
  have h : Owned s ∧ Consistent s := by
    refine r.invariant (I := fun s => Owned s ∧ Consistent s) ?_ ⟨.initial user, .initial user⟩
    intro s₁ e s₂ ⟨ho, hc⟩ ⟨ht, hs⟩
    refine ⟨ho.step hs, hc.step_iff hs |>.mpr ?_⟩
    cases e
    case complete i ok =>
      cases ok
      case false => trivial
      case true  => exact fun h hh => ho.admits hc (List.mem_of_getElem? hh) (ht h hh)
    all_goals trivial
  exact ⟨h.right, length_pages ▸ h.right.path.length_le⟩

-- The same, with another screen opened and left before signing out.
def uninterrupted : List Event := [
  .start .logIn, .complete 0 true, .onTap .profileTab, .push .followerScreen, .back,
  .start .signOut, .complete 0 true
]

theorem consistent_of_uninterrupted : ∃ s,
    Run (Guarded OnTop (Fires step)) (initial false) uninterrupted s ∧ s.pages = [.loginScreen] ∧
    Consistent s ∧ s.routes.length ≤ 4 := by
  have ⟨s, r, hp⟩ : ∃ s, Run (Guarded OnTop (Fires step)) (initial false) uninterrupted s ∧
      s.pages = [.loginScreen] := by
    refine ⟨_, .step ⟨trivial, rfl⟩ <| .step ⟨?_, rfl⟩ <| .step ⟨trivial, rfl⟩ <|
      .step ⟨trivial, rfl⟩ <| .step ⟨trivial, rfl⟩ <| .step ⟨trivial, rfl⟩ <| .single ⟨?_, rfl⟩, rfl⟩
    · exact fun _ h => Option.some.inj h ▸ rfl
    · exact fun _ h => Option.some.inj h ▸ rfl
  exact ⟨s, r, hp, consistent_of_run false r⟩

end Navigation
