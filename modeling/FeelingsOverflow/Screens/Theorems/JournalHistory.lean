import FeelingsOverflow.Screens.Theorems.Readable
import FeelingsOverflow.Execution.Since

open Execution Firestore FirebaseMethods

namespace Journal

variable {δ : Type}

-- The diaries that are opened, by their keys.
def opens (es : List (JournalEvent δ)) : List (Uid × DocId) :=
  es.filterMap fun
    | .openDiary uid id => some (uid, id)
    | _                 => none

def keys (j : Journal) : List (Uid × DocId) :=
  j.opened.map fun diary => (diary.uid, diary.id)

-- The post that an event makes, and where it is put.
def publication (json : JsonCoding δ) (j : Journal) : JournalEvent δ → Option (Uid × DocId × Document)
  | .postDiary i id offset now timestamp => do
    let diary ← j.opened[i]?
    let doc ← FirebaseMethods.postDiary diary.data diary.uid diary.uid offset now timestamp
    return (diary.uid, id, doc)
  | .postCard uid id delta image offset now timestamp =>
    let content := .string (json.jsonEncode delta)
    some (uid, id, FirebaseMethods.postCard content image uid offset now timestamp)
  | _ => none

def write (c : Uid → Collection DocId) (uid : Uid) (id : DocId) (o : Option Document) :
    Uid → Collection DocId :=
  Function.update c uid <| Function.update (c uid) id o

theorem write_apply (c : Uid → Collection DocId) (u : Uid) (i : DocId) (o : Option Document)
    (uid : Uid) (id : DocId) : write c u i o uid id = if (u, i) = (uid, id) then o else c uid id := by
  by_cases hu : u = uid
  case neg => simp [write, hu, Function.update_of_ne (Ne.symm hu)]
  case pos =>
    subst hu
    by_cases hi : i = id
    case neg => simp [write, hi, Function.update_of_ne (Ne.symm hi)]
    case pos => simp [write, hi]

-- All that an event can do.
inductive Effect (json : JsonCoding δ) (j : Journal) : JournalEvent δ → Journal → Prop
  | created {id : DocId} (title : String) (delta : δ) (colorID : Nat) (offset now currentTimestamp : Int) :
    j.personalDiaries uid id = none →
    Effect json j (.createDiary uid id title delta colorID offset now currentTimestamp)
      { j with personalDiaries := write j.personalDiaries uid id <| some <|
          DiaryCreatorScreen.diary json title delta colorID offset now currentTimestamp }
  | opened {id : DocId} : j.personalDiaries uid id = some data →
    Effect json j (.openDiary uid id) { j with opened := j.opened ++ [⟨uid, id, data⟩] }
  | edited {i : Nat} (delta : δ) (now : Int) : j.opened[i]? = some diary →
    j.personalDiaries diary.uid diary.id = some doc →
    Effect json j (.editDiary i delta now)
      { j with personalDiaries := write j.personalDiaries diary.uid diary.id <| some <|
          doc.update (DiaryEditorScreen.changes json delta now) }
  | deleted {i : Nat} : j.opened[i]? = some diary →
    Effect json j (.deleteDiary i)
      { j with personalDiaries := write j.personalDiaries diary.uid diary.id none }
  | posted {id : DocId} : publication json j e = some (uid, id, doc) → j.posts uid id = none →
    Effect json j e { j with posts := write j.posts uid id (some doc) }

variable {json : JsonCoding δ} {j j' : Journal} {e : JournalEvent δ} {es : List (JournalEvent δ)}
variable {uid : Uid} {id : DocId} {doc : Document}

theorem add_eq_some_iff {c c' : Uid → Collection DocId} : add c uid id doc = some c' ↔
    c uid id = none ∧ write c uid id (some doc) = c' := by
  simp [add, write, Option.ite_none_right_eq_some]

theorem effect (h : Fires (step json) j e j') : Effect json j e j' := by
  cases e <;> simp only [Fires, step, perform, Option.ite_none_right_eq_some, Option.bind_eq_bind,
    Option.bind_eq_some_iff, Option.map_eq_some_iff, Option.pure_def, Option.some.injEq,
    add_eq_some_iff] at h
  case createDiary =>
    obtain ⟨_, _, ⟨hn, rfl⟩, rfl⟩ := h
    exact .created _ _ _ _ _ _ hn
  case openDiary =>
    obtain ⟨_, hd, rfl⟩ := h
    exact .opened hd
  case editDiary =>
    obtain ⟨_, ho, _, ⟨_, hd, rfl⟩, rfl⟩ := h
    exact .edited _ _ ho hd
  case deleteDiary =>
    obtain ⟨_, ho, rfl⟩ := h
    exact .deleted ho
  case postDiary =>
    obtain ⟨_, ho, _, hp, _, ⟨hn, rfl⟩, rfl⟩ := h
    exact .posted (by simp [publication, ho, hp]) hn
  case postCard =>
    obtain ⟨_, ⟨hn, rfl⟩, rfl⟩ := h
    exact .posted rfl hn

-- What an event does to the posts.
theorem step_posts (h : Fires (step json) j e j') : j'.posts uid id = some doc ↔
    publication json j e = some (uid, id, doc) ∨ j.posts uid id = some doc := by
  cases effect h
  case posted hn hp =>
    simp only [hp, write_apply]
    grind
  all_goals simp [publication]

theorem step_keys (h : Fires (step json) j e j') : j'.keys = j.keys ++ opens [e] := by
  cases effect h
  case posted hp => cases e <;> simp [publication, opens, keys] at hp ⊢
  all_goals simp [opens, keys]

theorem keys_of_run (r : Run (Fires (step json)) j es j') : j'.keys = j.keys ++ opens es := by
  induction r
  case refl         => simp [opens]
  case step he _ hi =>
    rw [hi, step_keys he, List.append_assoc, opens, opens, opens, ←List.filterMap_append]
    rfl

theorem keys_prefix (r : Run (Fires (step json)) j es j') : j.keys <+: j'.keys :=
  keys_of_run r ▸ List.prefix_append ..

theorem keys_eq (r : Run (Fires (step json)) empty es j) : j.keys = opens es :=
  keys_of_run r

-- The edits of a diary, where `os` are the diaries that have been opened.
def edits (os : List (Uid × DocId)) (uid : Uid) (id : DocId) (es : List (JournalEvent δ)) :
    List (δ × Int) :=
  es.filterMap fun
    | .editDiary i delta now => if os[i]? = some (uid, id) then some (delta, now) else none
    | _                      => none

def edited (json : JsonCoding δ) (doc : Document) (es : List (δ × Int)) : Document :=
  es.foldl (fun doc e => doc.update <| DiaryEditorScreen.changes json e.1 e.2) doc

def Deletes (uid : Uid) (id : DocId) (j : Journal) (e : JournalEvent δ) : Prop :=
  ∃ i, e = .deleteDiary i ∧ j.keys[i]? = some (uid, id)

theorem keys_of_opened {i : Nat} {diary : DiarySnapshot} (h : j.opened[i]? = some diary) :
    j.keys[i]? = some (diary.uid, diary.id) := by
  simp [keys, h]

theorem getElem?_of_prefix {ks os : List (Uid × DocId)} (h : ks <+: os) {i : Nat}
    (hi : ks[i]? = some k) : os[i]? = some k := by
  obtain ⟨_, rfl⟩ := h
  rwa [List.getElem?_append_left (List.getElem?_eq_some_iff.mp hi).1]

-- A diary is there once it is created, until it is deleted.
theorem step_isSome (h : Fires (step json) j e j') : (j'.personalDiaries uid id).isSome ↔
    (∃ title delta colorID offset now currentTimestamp,
      e = .createDiary uid id title delta colorID offset now currentTimestamp) ∨
    (j.personalDiaries uid id).isSome ∧ ¬Deletes uid id j e := by
  cases effect h
  case created u i _ _ _ _ _ _ _ =>
    simp only [write_apply, Deletes, JournalEvent.createDiary.injEq, reduceCtorEq]
    grind
  case edited ho hd =>
    simp only [write_apply, Deletes]
    grind
  case deleted ho =>
    simp only [write_apply, Deletes, JournalEvent.deleteDiary.injEq, exists_eq_left', keys_of_opened ho]
    grind
  case opened => simp [Deletes]
  case posted hp => cases e <;> simp [publication, Deletes] at hp ⊢

-- As long as it is there, only edits change it.
theorem step_edited (h : Fires (step json) j e j') (hd : j.personalDiaries uid id = some doc)
    (hn : ¬Deletes uid id j e) 
    (hk : j.keys <+: os) :
    j'.personalDiaries uid id = some (edited json doc (edits os uid id [e])) := by
  cases effect h
  case edited diary doc' i delta now ho hd' =>
    have hi : os[i]? = some (diary.uid, diary.id) := getElem?_of_prefix hk <| keys_of_opened ho
    simp only [write_apply]
    by_cases he : (diary.uid, diary.id) = (uid, id)
    case pos =>
      obtain ⟨rfl, rfl⟩ := Prod.mk.inj he
      obtain rfl := Option.some.inj (hd.symm.trans hd')
      simp [edits, edited, hi]
    case neg => simp [edits, edited, hi, he, hd]
  case created u i _ _ _ _ _ _ hc =>
    simp only [write_apply]
    rw [if_neg (by grind), hd]
    rfl
  case deleted ho =>
    simp only [write_apply]
    rw [if_neg fun he => hn ⟨_, rfl, (keys_of_opened ho).trans <| congrArg some he⟩, hd]
    rfl
  case opened => exact hd
  case posted hp =>
    cases e <;> simp [publication] at hp
    all_goals exact hd

theorem edited_append (doc : Document) (es₁ es₂ : List (δ × Int)) :
    edited json doc (es₁ ++ es₂) = edited json (edited json doc es₁) es₂ :=
  List.foldl_append

theorem edited_of_run (r : Run (Guarded (¬Deletes uid id · ·) (Fires (step json))) j es j')
    (hd : j.personalDiaries uid id = some doc) {os : List (Uid × DocId)} (hk : j'.keys <+: os) :
    j'.personalDiaries uid id = some (edited json doc (edits os uid id es)) := by
  induction r generalizing doc
  case refl => exact hd
  case step j e j₁ es j' he r hi =>
    have hk' : j.keys <+: os := keys_prefix (.step he.right r.unguard) |>.trans hk
    rw [hi (step_edited he.right hd he.left hk') hk, ←edited_append, edits, edits, edits,
      ←List.filterMap_append]
    rfl

-- In which runs a diary is not deleted.
theorem run_guarded_iff (r : Run (Fires (step json)) j es j') {os : List (Uid × DocId)}
    (hk : j'.keys <+: os) : Run (Guarded (¬Deletes uid id · ·) (Fires (step json))) j es j' ↔
      ∀ i, .deleteDiary i ∈ es → os[i]? ≠ some (uid, id) := by
  induction r
  case refl => exact ⟨fun _ _ => nofun, fun _ => .refl⟩
  case step j e j₁ es j' he r hi =>
    have hk' : j.keys <+: os := keys_prefix (.step he r) |>.trans hk
    constructor
    · intro r' i hm
      cases r'
      case step he' r' =>
        obtain rfl := Fires.deterministic he he'.right
        rcases List.mem_cons.mp hm with rfl | hm
        case inr => exact hi hk |>.mp r' i hm
        case inl =>
          cases effect he
          case posted hp => simp [publication] at hp
          case deleted ho =>
            have ho := keys_of_opened ho
            intro hn
            refine he'.left ⟨i, rfl, ho.trans ?_⟩
            rw [←hn, getElem?_of_prefix hk' ho]
    · intro h
      refine .step ⟨fun ⟨i, hd, ho⟩ => ?_, he⟩ <| hi hk |>.mpr fun i hm => h i <| .tail _ hm
      exact h i (hd ▸ .head _) <| getElem?_of_prefix hk' ho

theorem created_of_fires (h : Fires (step json) j
    (.createDiary uid id title delta colorID offset now timestamp) j') : j'.personalDiaries uid id =
      some (DiaryCreatorScreen.diary json title delta colorID offset now timestamp) := by
  cases effect h
  case created   => simp [write_apply]
  case posted hp => simp [publication] at hp

-- The diaries are those that have been created and not been deleted since, with all the edits since. So
-- nothing but their text and the time of its last change is ever changed.
theorem personalDiaries_iff (r : Run (Fires (step json)) empty es j) :
    j.personalDiaries uid id = some doc ↔ ∃ es₁ title delta colorID offset now timestamp es₂,
      es = es₁ ++ .createDiary uid id title delta colorID offset now timestamp :: es₂ ∧
      (∀ i, .deleteDiary i ∈ es₂ → (opens es)[i]? ≠ some (uid, id)) ∧
      doc = edited json (DiaryCreatorScreen.diary json title delta colorID offset now timestamp)
        (edits (opens es) uid id es₂) := by
  have hk : j.keys <+: opens es := keys_eq r ▸ List.prefix_rfl
  have h₀ : ¬(empty.personalDiaries uid id).isSome := by simp [empty]
  have hs := r.since_iff (fun j => (j.personalDiaries uid id).isSome) step_isSome h₀
  constructor
  · intro h
    have ⟨es₁, _, es₂, j₁, j₂, hes, r₁, he, ha, r₂⟩ := hs.mp (Option.isSome_of_eq_some h)
    obtain ⟨title, delta, colorID, offset, now, timestamp, rfl⟩ := ha
    have hd := edited_of_run r₂ (created_of_fires he) hk
    exact ⟨es₁, title, delta, colorID, offset, now, timestamp, es₂, hes,
      run_guarded_iff r₂.unguard hk |>.mp r₂, Option.some.inj <| h.symm.trans hd⟩
  · intro ⟨es₁, title, delta, colorID, offset, now, timestamp, es₂, hes, hn, hd⟩
    have ⟨j₁, r₁, r₂⟩ := (hes ▸ r).split
    cases r₂
    case step he r₂ =>
      rw [hd]
      exact edited_of_run (run_guarded_iff r₂ hk |>.mpr hn) (created_of_fires he) hk

-- Alice edits a diary in two screens, and opens another one before she deletes it.
def editTwice : List (JournalEvent String) := [
  .createDiary "alice" "diary" "Title" "first" 7 0 0 0,
  .openDiary "alice" "diary",
  .openDiary "alice" "diary",
  .createDiary "alice" "other" "Other" "text" 0 0 1 1,
  .openDiary "alice" "other",
  .editDiary 1 "second" 2,
  .deleteDiary 2,
  .editDiary 0 "third" 3
]

theorem edited_of_editTwice : ∃ j doc, Run (Fires (step plainText)) empty editTwice j ∧
    j.personalDiaries "alice" "other" = none ∧
    j.personalDiaries "alice" "diary" = some doc ∧ ∃ es₁ title delta colorID offset now timestamp es₂,
      editTwice = es₁ ++ .createDiary "alice" "diary" title delta colorID offset now timestamp :: es₂ ∧
      (∀ i, .deleteDiary i ∈ es₂ → (opens editTwice)[i]? ≠ some ("alice", "diary")) ∧
      doc = edited plainText (DiaryCreatorScreen.diary plainText title delta colorID offset now timestamp)
        (edits (opens editTwice) "alice" "diary" es₂) := by
  have ⟨j, doc, r, hn, hd⟩ : ∃ j doc, Run (Fires (step plainText)) empty editTwice j ∧
      j.personalDiaries "alice" "other" = none ∧ j.personalDiaries "alice" "diary" = some doc :=
    ⟨_, _, .step rfl <| .step rfl <| .step rfl <| .step rfl <| .step rfl <| .step rfl <| .step rfl <|
      .single rfl, rfl, rfl⟩
  exact ⟨j, doc, r, hn, hd, personalDiaries_iff r |>.mp hd⟩

end Journal
