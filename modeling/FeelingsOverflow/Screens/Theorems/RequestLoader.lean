import FeelingsOverflow.Screens.Search

open Execution RequestList
open Lifecycle (Widget finish)

namespace Search

-- The follow requests with all that the tab keeps of them.
def Fields.requests (s : Fields) (currentUserUid : Uid) : RequestList where
  currentUserUid := currentUserUid
  requestsUid    := s.requestsUid
  requestsName   := s.requestsName
  requestsPicUrl := s.requestsPicUrl

-- Both reads of a user's document are answered alike.
def snaps (answers : Answers) (uid : Uid) : Snap × Snap :=
  (answers (.user uid), answers (.user uid))

variable {answers : Answers} {me : Uid} {s : Lifecycle.State Fields}

theorem finish_throw :
    (finish answers (block .throw) s).fields.requests me = s.fields.requests me := by
  obtain ⟨_, _ | _, _, _⟩ := s <;> rfl

theorem finish_done (returned : Bool) :
    (finish answers (block (.done returned)) s).fields.requests me = s.fields.requests me := by
  cases returned <;> obtain ⟨_, _ | _, _, _⟩ := s <;> rfl

theorem finish_assign (f : Fields → Fields) (c : Loader Fields Bool) :
    finish answers (block (do Lifecycle.assign f; c)) s = finish answers (block c) (s.assign f) :=
  rfl

theorem finish_awaitUsername :
    (finish answers (block (awaitUsername me)) s).fields.requests me = s.fields.requests me := by
  rw [awaitUsername, Lifecycle.finish_answered <| answered_getUsername ..]
  cases getUsername (answers (.user me))
  case none => exact finish_throw
  case some => exact finish_assign _ _ ▸ finish_done false

-- The loop appends what it fetches.
theorem finish_awaitNames (uids : List Uid) :
    (finish answers (block (do awaitNames uids; awaitUsername me)) s).fields.requests me =
      { s.fields.requests me with
        requestsName   := s.fields.requestsName ++ (fetch <| uids.map (snaps answers)).1
        requestsPicUrl := s.fields.requestsPicUrl ++ (fetch <| uids.map (snaps answers)).2 } := by
  induction uids generalizing s
  case nil =>
    refine finish_awaitUsername.trans ?_
    simp [fetch, Fields.requests]
  case cons uid uids hi =>
    rw [awaitNames_cons, Lifecycle.finish_answered <| answered_getUsername .., List.map_cons, fetch]
    cases hn : getUsername (answers (.user uid))
    case none =>
      refine finish_throw.trans ?_
      simp [snaps, hn, Fields.requests]
    case some name =>
      rw [finish_assign, awaitPicUrl_bind, Lifecycle.finish_answered <| answered_getPicUrl ..]
      cases hp : getPicUrl (answers (.user uid))
      case none =>
        refine finish_throw.trans ?_
        simp [snaps, hn, hp, Fields.requests, Lifecycle.State.assign]
      case some picUrl =>
        rw [finish_assign, hi]
        simp [snaps, hn, hp, Fields.requests, Lifecycle.State.assign]

theorem finish_getRequests :
    (finish answers (getRequests me) (.initial initial)).fields.requests me =
      RequestList.getRequests (answers (.user me)) me (snaps answers) := by
  show (finish answers (block (awaitRequests me)) _).fields.requests me = _
  rw [Lifecycle.finish_answered answered_awaitRequests]
  simp only [RequestList.getRequests, SearchTab.getRequests]
  rcases answers (.user me) with _ | _ | d
  case some.some =>
    simp only
    rcases d "requests" with _ | _ | _ | _ | _ | _ | requestsUid
    case none       => exact finish_done true
    case some.null  => exact finish_done true
    case some.array => exact finish_assign _ _ ▸ finish_awaitNames requestsUid
    all_goals exact finish_throw
  all_goals exact finish_throw

-- Whatever the loader is answered, it ends with the list of requests that the answers give.
theorem requests_of_run (r : Run (Widget.Resumes answers) (start me).widget es w)
    (h : w.Returned) : w.state.fields.requests me =
      RequestList.getRequests (answers (.user me)) me (snaps answers) := by
  rw [Widget.finish_of_run r h, finish_getRequests]

-- Where each of the texts is there, that is the list in which every request has its row.
theorem loaded_of_run (r : Run (Widget.Resumes answers) (start me).widget es w)
    (h : w.Returned) (f : Fetched) (hd : answers (.user me) = some (some userData))
    (hr : userData "requests" = some (.array uids))
    (hf : ∀ uid ∈ uids, getUsername (answers (.user uid)) = some (f.name uid) ∧
      getPicUrl (answers (.user uid)) = some (f.picUrl uid)) :
    w.state.fields.requests me = loaded f me uids := by
  rw [requests_of_run r h, hd, getRequests_of_texts f hr hf]

theorem exists_run (answers : Answers) (me : Uid) : ∃ es w,
    Run (Widget.Resumes answers) (start me).widget es w ∧ w.Returned ∧
    w.state.fields.requests me =
      RequestList.getRequests (answers (.user me)) me (snaps answers) := by
  have ⟨es, w, r, h⟩ := Widget.exists_run initial (getRequests me) answers
  exact ⟨es, w, r, h, requests_of_run r h⟩

end Search
