import FeelingsOverflow.Screens.RequestList
import FeelingsOverflow.Screens.Loader

open Firestore FirebaseMethods
open Lifecycle (advance answered)

namespace Search

-- All that the search tab keeps. The text is what its search field holds.
structure Fields where
  username : String
  isShowUsers : Bool
  requestsUid : List Uid
  requestsName : List String
  requestsPicUrl : List String
  isLoading : Bool
  text : String
  deriving DecidableEq, Repr

def initial : Fields where
  username       := ""
  isShowUsers    := false
  requestsUid    := []
  requestsName   := []
  requestsPicUrl := []
  isLoading      := false
  text           := ""

-- `requests as List` throws for anything but a list.
def asList : Option Value → Loader Fields (List Uid)
  | some (.array xs) => .done xs
  | _                => .throw

-- The last step of the loader's `try` block.
def awaitUsername (currentUserUid : Uid) : Loader Fields Bool := do
  let username ← Loader.getUsername currentUserUid
  Lifecycle.assign fun s => { s with username }
  return false

def awaitPicUrl (uid : Uid) (rest : Loader Fields Unit) : Loader Fields Unit := do
  let picUrl ← Loader.getPicUrl uid
  Lifecycle.assign fun s => { s with requestsPicUrl := s.requestsPicUrl ++ [picUrl] }
  rest

def awaitNames : List Uid → Loader Fields Unit
  | [] => return
  | uid :: uids => do
    let name ← Loader.getUsername uid
    Lifecycle.assign fun s => { s with requestsName := s.requestsName ++ [name] }
    awaitPicUrl uid (awaitNames uids)

-- Yields whether it has returned early.
def awaitRequests (currentUserUid : Uid) : Loader Fields Bool := do
  let userSnap ← Lifecycle.fetch (Read.user currentUserUid)
  let userData ← Async.ofOption userSnap
  if isNull (userData "requests") then
    return true
  else
    let requestsUid ← asList (userData "requests")
    Lifecycle.assign fun s => { s with requestsUid }
    awaitNames requestsUid
    awaitUsername currentUserUid

-- The `try` block with all that follows it. Its `catch` clause shows an alert.
def block (c : Loader Fields Bool) : Loader Fields Unit := do
  let returned ← c.tryCatch do
    Lifecycle.context
    return false
  if returned then
    return
  else
    Lifecycle.setState fun s => { s with isLoading := false }

def getRequests (currentUserUid : Uid) : Loader Fields Unit := do
  Lifecycle.setState fun s => { s with isLoading := true }
  block (awaitRequests currentUserUid)

-- What a build asks for.
structure Query where
  username : String
  text : String
  deriving DecidableEq, Repr

-- A document in which the username is another one, and not less than the text.
def Query.finds (q : Query) (d : Document) : Bool :=
  match d.string "username" with
  | some name => name ≠ q.username ∧ q.text ≤ name
  | none      => false

-- The tab on the screen, and what its last build has asked for.
structure Page where
  widget : Lifecycle.Widget Read.Result Fields
  query : Option Query

inductive Event
  | complete (ok : Bool)
  | onChanged (text : String)
  | onFieldSubmitted
  | build
  deriving DecidableEq, Repr

-- What the loader, which reads no diaries, is answered.
def answersOf (users : Users) (ok : Bool) : Answers
  | .user uid          => if ok then some (users uid) else none
  | .personalDiaries _ => none

def build (s : Fields) : Option Query :=
  if s.isShowUsers then some { username := s.username, text := s.text } else none

def start (currentUserUid : Uid) : Page where
  widget := .create initial (getRequests currentUserUid)
  query  := none

def step (users : Users) (p : Page) : Event → Option Page
  | .complete ok => do
    let widget ← p.widget.resume 0 (answersOf users ok)
    return { p with widget }
  | .onChanged text => some { p with widget := p.widget.assign fun s => { s with text } }
  | .onFieldSubmitted =>
    some { p with widget := p.widget.setState fun s => { s with isShowUsers := true } }
  | .build =>
    if p.widget.state.dirty then some {
      widget := p.widget.rebuilt
      query  := build p.widget.state.fields
    }
    else none

-- Where the loader can be between two steps.
inductive Suspended (currentUserUid : Uid) : Loader Fields Unit → Prop
  | requests : Suspended currentUserUid (block (awaitRequests currentUserUid))
  | names (uids : List Uid) :
    Suspended currentUserUid (block (do awaitNames uids; awaitUsername currentUserUid))
  | picUrl (uid : Uid) (uids : List Uid) :
    Suspended currentUserUid (block (do awaitPicUrl uid (awaitNames uids); awaitUsername currentUserUid))
  | returned : c.pending = none → Suspended currentUserUid c

-- All that an answer can lead to.
inductive Resumed (currentUserUid : Uid) (answers : Answers) (c : Loader Fields Unit) :
    Loader Fields Unit → Prop
  | failed : Resumed currentUserUid answers c (block .throw)
  | noRequests : Resumed currentUserUid answers c (block (.done true))
  | names (uids : List Uid) : (∀ s, (f s).username = s.username) →
    Resumed currentUserUid answers c
      (block (do Lifecycle.assign f; awaitNames uids; awaitUsername currentUserUid))
  | picUrl (uid : Uid) (uids : List Uid) : (∀ s, (f s).username = s.username) →
    Resumed currentUserUid answers c
      (block (do Lifecycle.assign f; awaitPicUrl uid (awaitNames uids); awaitUsername currentUserUid))
  | username : c = block (awaitUsername currentUserUid) →
    RequestList.getUsername (answers (.user currentUserUid)) = some username →
    Resumed currentUserUid answers c
      (block (do Lifecycle.assign fun s => { s with username }; return false))

variable {me : Uid} {answers : Answers} {c c' : Loader Fields Unit}

theorem answered_block {c c' : Loader Fields Bool} (h : answered answers c = some c') :
    answered answers (block c) = some (block c') :=
  Lifecycle.answered_bind (Lifecycle.answered_tryCatch h _) _

theorem answered_awaitRequests : answered answers (block (awaitRequests me)) =
    some (block (match answers (.user me) with
      | some (some userData) =>
        if isNull (userData "requests") then .done true
        else match userData "requests" with
          | some (.array requestsUid) => do
            Lifecycle.assign fun s => { s with requestsUid }
            awaitNames requestsUid
            awaitUsername me
          | _ => .throw
      | _ => .throw)) := by
  rw [awaitRequests, answered_block <| Lifecycle.answered_fetch ..]
  rcases answers (.user me) with _ | _ | d
  case some.some =>
    simp only [Option.elim, Async.ofOption, Async.done_bind]
    split
    case isTrue  => rfl
    case isFalse => rcases d "requests" with _ | _ | _ | _ | _ | _ | uids <;> rfl
  all_goals rfl

-- Some text is read from a user's document.
theorem answered_text (uid : Uid) (field : String) (f : String → Loader Fields Bool) :
    answered answers (block ((do
      let userSnap ← Lifecycle.fetch (Read.user uid)
      let userData ← Async.ofOption userSnap
      Async.ofOption (userData.string field)) >>= f)) =
    some (block (match (answers (.user uid)).bind fun snap => snap.bind (·.string field) with
      | some text => f text
      | none      => .throw)) := by
  rw [answered_block <| Lifecycle.answered_bind (Lifecycle.answered_fetch ..) f]
  rcases answers (.user uid) with _ | _ | d
  case some.some =>
    simp only [Option.elim, Option.bind_some, Async.ofOption, Async.done_bind]
    cases d.string field <;> rfl
  all_goals rfl

theorem answered_getUsername (uid : Uid) (f : String → Loader Fields Bool) :
    answered answers (block (Loader.getUsername uid >>= f)) =
      some (block (match RequestList.getUsername (answers (.user uid)) with
        | some username => f username
        | none          => .throw)) :=
  answered_text uid "username" f

theorem answered_getPicUrl (uid : Uid) (f : String → Loader Fields Bool) :
    answered answers (block (Loader.getPicUrl uid >>= f)) =
      some (block (match RequestList.getPicUrl (answers (.user uid)) with
        | some picUrl => f picUrl
        | none        => .throw)) :=
  answered_text uid "profilepic" f

theorem awaitNames_cons (uid : Uid) (uids : List Uid) (c : Loader Fields Bool) :
    (do awaitNames (uid :: uids); c) = (do
      let name ← Loader.getUsername uid
      Lifecycle.assign fun s => { s with requestsName := s.requestsName ++ [name] }
      awaitPicUrl uid (awaitNames uids)
      c) := by
  simp only [awaitNames, Async.bind_assoc]

theorem awaitPicUrl_bind (uid : Uid) (rest : Loader Fields Unit) (c : Loader Fields Bool) :
    (do awaitPicUrl uid rest; c) = (do
      let picUrl ← Loader.getPicUrl uid
      Lifecycle.assign fun s => { s with requestsPicUrl := s.requestsPicUrl ++ [picUrl] }
      rest
      c) := by
  simp only [awaitPicUrl, Async.bind_assoc]

theorem Suspended.cases (h : Suspended me c) (hc : answered answers c = some c') :
    Resumed me answers c c' := by
  cases h
  case returned h => simp [Lifecycle.answered_of_pending h] at hc
  case requests =>
    obtain rfl := Option.some.inj <| answered_awaitRequests.symm.trans hc
    split
    case h_2 => exact .failed
    case h_1 =>
      split
      case isTrue => exact .noRequests
      case isFalse =>
        split
        case h_1 uids _ => exact .names uids fun _ => rfl
        case h_2        => exact .failed
  case names uids =>
    cases uids
    case nil =>
      obtain rfl := Option.some.inj <| (answered_getUsername ..).symm.trans hc
      cases hn : RequestList.getUsername (answers (.user me))
      case none => exact .failed
      case some => exact .username rfl hn
    case cons uid uids =>
      rw [awaitNames_cons] at hc
      obtain rfl := Option.some.inj <| (answered_getUsername ..).symm.trans hc
      cases RequestList.getUsername (answers (.user uid))
      case none => exact .failed
      case some => exact .picUrl uid uids fun _ => rfl
  case picUrl uid uids =>
    rw [awaitPicUrl_bind] at hc
    obtain rfl := Option.some.inj <| (answered_getPicUrl ..).symm.trans hc
    cases RequestList.getPicUrl (answers (.user uid))
    case none => exact .failed
    case some => exact .names uids fun _ => rfl

theorem advance_block_throw_pending (s : Lifecycle.State Fields) :
    (advance (block .throw) s).1.pending = none := by
  obtain ⟨_, _ | _, _, _⟩ := s <;> rfl

theorem advance_names (uids : List Uid) (s : Lifecycle.State Fields) :
    advance (block (do awaitNames uids; awaitUsername me)) s =
      (block (do awaitNames uids; awaitUsername me), s) := by
  cases uids <;> rfl

theorem advance_assign (f : Fields → Fields) (c : Loader Fields Bool) (s : Lifecycle.State Fields) :
    advance (block (do Lifecycle.assign f; c)) s =
      advance (block c) (s.assign f) :=
  rfl

theorem advance_username (username : String) (s : Lifecycle.State Fields) :
    (advance (block (do Lifecycle.assign fun s => { s with username }; return false)) s).1.pending =
      none := by
  obtain ⟨_, _ | _, _, _⟩ := s <;> rfl

theorem Resumed.suspended (h : Resumed me answers c c') (s : Lifecycle.State Fields) :
    Suspended me (advance c' s).1 := by
  cases h
  case failed     => exact .returned (advance_block_throw_pending s)
  case noRequests => exact .returned rfl
  case picUrl     => exact .picUrl ..
  case username   => exact .returned (advance_username _ s)
  case names uids _ =>
    rw [advance_assign, advance_names]
    exact .names uids

end Search
