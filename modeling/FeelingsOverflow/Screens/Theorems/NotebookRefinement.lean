import FeelingsOverflow.Screens.Notebook
import FeelingsOverflow.Screens.Theorems.Readable
import FeelingsOverflow.Execution.Bisimulation

open Execution Firestore FirebaseMethods Calendar

variable {δ : Type} {json : JsonCoding δ} {doc : Document}

-- What the screens read of a diary.
def Reads (json : JsonCoding δ) (doc : Document) (view : DiaryView δ) : Prop :=
  DiaryView.read json doc = some view

-- What they show of a post, and for how long.
structure Shows (json : JsonCoding δ) (uid : Uid) (p : Publication δ) (doc : Document) : Prop where
  home    : ∀ viewer, HomeTab.buildPost json viewer doc = some (p.homeCard uid viewer)
  profile : ∀ viewer, ProfileTab.buildPost json viewer doc = some (p.profileCard uid viewer)
  reader  : ∀ diary, p.shared = .diary diary →
    PostReaderScreen.build json doc = some (p.reader uid diary)
  posted  : Posted p.offset p.now doc

namespace Reads

theorem string_eq_some_iff : doc.string f = some s ↔ doc f = some (.string s) := by
  rw [Document.string]
  split
  case h_1 hd => simp [hd]
  case h_2 hn =>
    constructor
    · exact (absurd · <| Option.some_ne_none _ ∘ Eq.symm)
    · exact (absurd · <| hn s)

theorem int_eq_some_iff : doc.int f = some i ↔ doc f = some (.int i) := by
  rw [Document.int]
  split
  case h_1 hd => simp [hd]
  case h_2 hn =>
    constructor
    · exact (absurd · <| Option.some_ne_none _ ∘ Eq.symm)
    · exact (absurd · <| hn i)

variable {view : DiaryView δ}

theorem «def» : Reads json doc view ↔
    (∃ i, doc "color_id" = some (.int i) ∧ AppStyle.cardColor i = some view.color) ∧
    doc "diary_title" = some (.string view.diaryTitle) ∧
    doc "creation_date" = some (.string view.creationDate) ∧
    ∃ s, doc "diary_content" = some (.string s) ∧
      json.getQuillControllerviaJSON s = some view.diaryContent := by
  simp only [Reads, DiaryView.read, Option.bind_eq_bind, Option.bind_eq_some_iff, Option.pure_def,
    Option.some.injEq, string_eq_some_iff, int_eq_some_iff]
  constructor
  · rintro ⟨i, hi, c, hc, t, ht, d, hd, s, hs, q, hq, rfl⟩
    exact ⟨⟨i, hi, hc⟩, ht, hd, s, hs, hq⟩
  · rintro ⟨⟨i, hi, hc⟩, ht, hd, s, hs, hq⟩
    exact ⟨i, hi, _, hc, _, ht, _, hd, s, hs, _, hq, rfl⟩

theorem created (hc : AppStyle.cardsColor[colorID]? = some color) (title : String) (delta : δ)
    (offset now currentTimestamp : Int) :
    Reads json (DiaryCreatorScreen.diary json title delta colorID offset now currentTimestamp) {
      color        := color
      diaryTitle   := title
      creationDate := (DateTime.toLocal offset now).formatToMinute
      diaryContent := delta
    } :=
  «def».mpr ⟨⟨colorID, rfl, by simpa [AppStyle.cardColor] using hc⟩, rfl, rfl,
    json.jsonEncode delta, rfl, by simp⟩

theorem edited (h : Reads json doc view) (delta : δ) (now : Int) :
    Reads json (doc.update (DiaryEditorScreen.changes json delta now))
      { view with diaryContent := delta } := by
  have ⟨hc, ht, hd, _⟩ := «def».mp h
  have hf {f : String} (hf : f ∉ ["diary_content", "last_updated_timestamp"]) :
      doc.update (DiaryEditorScreen.changes json delta now) f = doc f :=
    Document.update_of_not_mem (by simpa [DiaryEditorScreen.changes] using hf)
  refine «def».mpr ⟨?_, ?_, ?_, json.jsonEncode delta, ?_, by simp⟩
  · rwa [hf (by simp)]
  · rwa [hf (by simp)]
  · rwa [hf (by simp)]
  · simp [DiaryEditorScreen.changes, Document.update, FieldValue.apply]

-- The four fields are copied, so that the post is read as the diary is.
theorem posted (h : Reads json doc view) (uid currentUser : Uid) (offset now timestamp : Int) :
    ∃ post, postDiary doc uid currentUser offset now timestamp = some post ∧
      Shows json currentUser ⟨.diary view, offset, now, timestamp⟩ post := by
  obtain ⟨⟨i, hi, hc⟩, ht, hd, s, hs, hq⟩ := «def».mp h
  obtain ⟨post, hp⟩ : ∃ post, postDiary doc uid currentUser offset now timestamp = some post := by
    simp [postDiary, hi, ht, hd, hs]
  obtain ⟨hu, hy, _⟩ := postDiary_fields hp
  have hr : DiaryView.read json post = some view := by
    simp only [postDiary, hi, ht, hd, hs, Option.bind_eq_bind, Option.bind_some, Option.pure_def,
      Option.some.injEq] at hp
    exact «def».mpr ⟨⟨i, hp ▸ rfl, hc⟩, hp ▸ rfl, hp ▸ rfl, s, hp ▸ rfl, hq⟩
  refine ⟨post, hp, ?_, ?_, ?_, .diary hp⟩
  · intro viewer
    simp [HomeTab.buildPost, hy, HomePageDiaryCard.build, Document.string, hu, hr,
      Publication.homeCard]
  · intro viewer
    simp [ProfileTab.buildPost, hy, DiaryCard.build, hr, Publication.profileCard]
  · rintro diary ⟨⟩
    simp [PostReaderScreen.build, Document.string, hu, hr, PostReaderScreen.postedOnLine_eq (.diary hp),
      Publication.reader]

end Reads

theorem shows_postCard (json : JsonCoding δ) (delta : δ) (image : String) (uid : Uid)
    (offset now timestamp : Int) : Shows json uid ⟨.snippet delta image, offset, now, timestamp⟩
      (postCard (.string (json.jsonEncode delta)) image uid offset now timestamp) := by
  generalize hd : postCard (.string (json.jsonEncode delta)) image uid offset now timestamp = doc
  have hu : doc.string "poster_uid" = some uid := hd ▸ rfl
  have hb : doc.string "card_background" = some image := hd ▸ rfl
  have hq : doc.string "diary_content" = some (json.jsonEncode delta) := hd ▸ rfl
  have ht : doc.timestamp "creation_timestamp" = some timestamp := hd ▸ rfl
  have hy : doc "display_type" = some (.string "WORDONLYDISPLAY") := hd ▸ rfl
  have hw viewer : WordOnlyDisplay.build json viewer doc = some (uid,
      Publication.snippetView ⟨.snippet delta image, offset, now, timestamp⟩ viewer delta image) := by
    simp [WordOnlyDisplay.build, SnippetView.read, hu, hb, hq, ht, Publication.snippetView]
  refine ⟨fun viewer => ?_, fun viewer => ?_, fun view h => ?_, hd ▸ .card⟩
  · simp [HomeTab.buildPost, hy, hw, Publication.homeCard]
  · simp [ProfileTab.buildPost, hy, WordOnlyDisplayProfile.build, hw, Publication.profileCard]
  · cases h

namespace Journal

-- All entries are related to those of a notebook's table.
def Entries (R : Uid → α → Document → Prop) (t : Uid → DocId → Option α) (c : Uid → Collection DocId) :
    Prop :=
  ∀ uid id, Option.Rel (R uid) (t uid id) (c uid id)

-- The readers of the journal show what the notebook says.
structure Presents (json : JsonCoding δ) (n : Notebook δ) (j : Journal) : Prop where
  diaries : Entries (fun _ view doc => Reads json doc view) n.diaries j.personalDiaries
  posts   : Entries (Shows json) n.posts j.posts
  opened  : List.Forall₂ (fun o diary => o.uid = diary.uid ∧ o.id = diary.id ∧
    Reads json diary.data o.diary) n.opened j.opened

namespace Entries

variable {R : Uid → α → Document → Prop} {t : Uid → DocId → Option α} {uid : Uid} {id : DocId}

theorem put (h : Entries R t c) {o : Option α} {o' : Option Document} (hr : Option.Rel (R uid) o o') :
    Entries R (Notebook.put t uid id o) (Function.update c uid (Function.update (c uid) id o')) := by
  intro u i
  simp only [Notebook.put]
  by_cases hu : u = uid
  case neg =>
    simp only [Function.update_of_ne hu]
    exact h u i
  case pos =>
    subst hu
    by_cases hi : i = id
    case neg =>
      simp only [Function.update_self, Function.update_of_ne hi]
      exact h u i
    case pos =>
      subst hi
      simpa only [Function.update_self] using hr

theorem add (h : Entries R t c) (hr : R uid a doc) :
    Option.Rel (Entries R) (Notebook.add t uid id a) (Journal.add c uid id doc) := by
  have hi := h uid id
  have hn : (t uid id).isNone = (c uid id).isNone := by
    revert hi
    generalize t uid id = o₁, c uid id = o₂
    rintro ⟨_⟩ <;> rfl
  simp only [Notebook.add, Journal.add, hn]
  split
  case isTrue  => exact .some <| h.put <| .some hr
  case isFalse => exact .none

end Entries

variable {n : Notebook δ} {j : Journal}

end Journal
