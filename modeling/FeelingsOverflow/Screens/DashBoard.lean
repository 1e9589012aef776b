import FeelingsOverflow.Screens.HomeTab
import FeelingsOverflow.Screens.Search
import FeelingsOverflow.Screens.ProfileTab

open Lifecycle

inductive Tab
  | homeTab | searchTab | myDiariesTab | profileTab
  deriving DecidableEq, Repr

namespace Tab

abbrev Fields : Tab → Type
  | homeTab      => HomeTab.Fields
  | searchTab    => Search.Fields
  | myDiariesTab => Unit
  | profileTab   => ProfileTab.Fields

-- The loader which a tab starts in its `initState`. The diaries have none.
def getData (uid : Uid) : (tab : Tab) → Loader tab.Fields Unit
  | homeTab      => HomeTab.getData uid
  | searchTab    => Search.getRequests uid
  | myDiariesTab => .done ()
  | profileTab   => ProfileTab.getData uid

def initial : (tab : Tab) → tab.Fields
  | homeTab      => HomeTab.initial
  | searchTab    => Search.initial
  | myDiariesTab => ()
  | profileTab   => ProfileTab.initial

end Tab

-- A tab on the screen, or one that has been disposed of.
abbrev Screen := (tab : Tab) × Widget Read.Result tab.Fields

-- All the tabs there have been, the last of which is on the screen.
structure DashBoard where
  currentIndex : Tab
  screens : List Screen

inductive DashBoardEvent
  | onTap (index : Tab)
  | complete (i j : Nat) (answers : Answers)
  | edited (i : Nat)

namespace DashBoard

def create (uid : Uid) (tab : Tab) : Screen :=
  ⟨tab, .create tab.initial (tab.getData uid)⟩

def start (uid : Uid) : DashBoard where
  currentIndex := .homeTab
  screens      := [create uid .homeTab]

def dispose (s : Screen) : Screen :=
  ⟨s.1, s.2.dispose⟩

-- A tap on another tab disposes of the current one. A read completes whatever has become of its tab.
-- The profile loads its data again when its user comes back from editing it.
def step (uid : Uid) (s : DashBoard) : DashBoardEvent → Option DashBoard
  | .onTap index =>
    if index = s.currentIndex then some s
    else some { currentIndex := index, screens := s.screens.map dispose ++ [create uid index] }
  | .complete i j answers => do
    let screen ← s.screens[i]?
    let widget ← screen.2.resume j answers
    return { s with screens := s.screens.set i ⟨screen.1, widget⟩ }
  | .edited i =>
    match s.screens[i]? with
    | some ⟨.profileTab, widget⟩ =>
      if widget.state.mounted then
        some { s with
          screens := s.screens.set i ⟨.profileTab, widget.launch (ProfileTab.getData uid)⟩ }
      else none
    | _ => none

end DashBoard
