import FeelingsOverflow.Screens.Journal
import FeelingsOverflow.Screens.Theorems.PostDate
import FeelingsOverflow.Screens.Theorems.Visibility
import FeelingsOverflow.Execution.Run

open Execution Firestore FirebaseMethods

variable {δ : Type} {json : JsonCoding δ} {doc : Document}

def ValidColor (doc : Document) : Prop :=
  ∀ colorID, doc "color_id" = some (.int colorID) →
    0 ≤ colorID ∧ colorID < AppStyle.cardsColor.length

-- No screen for one's own diaries throws, and no query for them drops the document.
structure ReadableDiary (json : JsonCoding δ) (doc : Document) : Prop where
  ordered : (doc "creation_timestamp").isSome
  color   : ValidColor doc
  card    : (DiaryCard.build json doc).isSome
  editor  : (DiaryEditorScreen.build json doc).isSome
  posting : (DiaryPostingScreen.build json doc).isSome

-- The card that is chosen can be built, and so can the reader if the card opens it.
def Displays (json : JsonCoding δ) (doc : Document) (buildPost : Option (PostCard δ)) : Prop :=
  ∃ card, buildPost = some card ∧ (card.opensReader → (PostReaderScreen.build json doc).isSome)

structure ReadablePost (json : JsonCoding δ) (doc : Document) : Prop where
  ordered : (doc "creation_timestamp").isSome
  color   : ValidColor doc
  passes  : ∀ offset now, (HomeTab.passes offset now doc).isSome
  home    : ∀ offset, Displays json doc (HomeTab.buildPost json offset doc)
  profile : ∀ offset, Displays json doc (ProfileTab.buildPost json offset doc)

-- The fields that make up a diary.
structure HasDiary (json : JsonCoding δ) (doc : Document) : Prop where
  color   : ∃ colorID : Int, doc "color_id" = some (.int colorID) ∧
    0 ≤ colorID ∧ colorID < AppStyle.cardsColor.length
  title   : ∃ title, doc "diary_title" = some (.string title)
  date    : ∃ date, doc "creation_date" = some (.string date)
  content : ∃ delta, doc "diary_content" = some (.string (json.jsonEncode delta))

namespace HasDiary

theorem validColor (h : HasDiary json doc) : ValidColor doc := by
  have ⟨_, hc, hv⟩ := h.color
  intro _ hc'
  rw [hc, Option.some.injEq, Value.int.injEq] at hc'
  exact hc' ▸ hv

theorem read (h : HasDiary json doc) : ∃ view, DiaryView.read json doc = some view := by
  have ⟨colorID, hc, h₀, hl⟩ := h.color
  have ⟨_, ht⟩ := h.title
  have ⟨_, hd⟩ := h.date
  have ⟨_, hq⟩ := h.content
  have hn : colorID.toNat < AppStyle.cardsColor.length := by omega
  simp [DiaryView.read, Document.int, Document.string, hc, ht, hd, hq, AppStyle.cardColor,
    Int.not_lt.mpr h₀, List.getElem?_eq_getElem hn]

theorem readable (h : HasDiary json doc) (ho : (doc "creation_timestamp").isSome) :
    ReadableDiary json doc := by
  have ⟨_, hr⟩ := h.read
  have hs := Option.isSome_of_eq_some hr
  exact ⟨ho, h.validColor, hs, hs, hs⟩

theorem created (title : String) (delta : δ) (h : colorID < AppStyle.cardsColor.length)
    (offset now currentTimestamp : Int) :
    HasDiary json
      (DiaryCreatorScreen.diary json title delta colorID offset now currentTimestamp) where
  color   := ⟨colorID, rfl, Int.natCast_nonneg _, Int.ofNat_lt.mpr h⟩
  title   := ⟨title, rfl⟩
  date    := ⟨_, rfl⟩
  content := ⟨delta, rfl⟩

theorem edited (h : HasDiary json doc) (delta : δ) (now : Int) :
    HasDiary json (doc.update (DiaryEditorScreen.changes json delta now)) where
  color   := by rw [Document.update_of_not_mem (by simp [DiaryEditorScreen.changes])]; exact h.color
  title   := by rw [Document.update_of_not_mem (by simp [DiaryEditorScreen.changes])]; exact h.title
  date    := by rw [Document.update_of_not_mem (by simp [DiaryEditorScreen.changes])]; exact h.date
  content := ⟨delta, by simp [DiaryEditorScreen.changes, Document.update, FieldValue.apply]⟩

theorem posted (h : HasDiary json doc)
    (hp : postDiary doc uid currentUser offset now timestamp = some post) :
    HasDiary json post := by
  have ⟨colorID, hc, hv⟩ := h.color
  have ⟨title, ht⟩ := h.title
  have ⟨date, hd⟩ := h.date
  have ⟨delta, hq⟩ := h.content
  simp only [postDiary, hc, ht, hd, hq, Option.bind_eq_bind, Option.bind_some, Option.pure_def,
    Option.some.injEq] at hp
  subst hp
  exact ⟨⟨colorID, rfl, hv⟩, ⟨title, rfl⟩, ⟨date, rfl⟩, ⟨delta, rfl⟩⟩

end HasDiary

-- What a post of a diary adds to the diary's fields.
theorem postDiary_fields (hp : postDiary diary uid currentUser offset now timestamp = some post) :
    post "poster_uid" = some (.string currentUser) ∧
    post "display_type" = some (.string "DIARYCARD") ∧
    post "creation_timestamp" = some (.timestamp timestamp) := by
  simp only [postDiary, Option.bind_eq_bind, Option.bind_eq_some_iff, Option.pure_def,
    Option.some.injEq] at hp
  obtain ⟨_, _, _, _, _, _, _, _, hp⟩ := hp
  subst hp
  exact ⟨rfl, rfl, rfl⟩

theorem passes_isSome (h : Posted poster posted doc) (offset now : Int) :
    (HomeTab.passes offset now doc).isSome :=
  Option.isSome_of_eq_some <| HomeTab.passes_eq h offset now

theorem readablePost_postDiary (h : HasDiary json diary)
    (hp : postDiary diary uid currentUser offset now timestamp = some post) :
    ReadablePost json post := by
  have hd := h.posted hp
  have ⟨hu, ht, hc⟩ := postDiary_fields hp
  have ⟨view, hr⟩ := hd.read
  have hb : (PostReaderScreen.build json post).isSome := by
    simp [PostReaderScreen.build, Document.string, hu, hr,
      PostReaderScreen.postedOnLine_eq (.diary hp)]
  exact {
    ordered := Option.isSome_of_eq_some hc
    color   := hd.validColor
    passes  := passes_isSome (.diary hp)
    home _  := ⟨.homePageDiaryCard currentUser view, by
      simp [HomeTab.buildPost, HomePageDiaryCard.build, Document.string, hu, ht, hr], fun _ => hb⟩
    profile _ := ⟨.diaryCard view, by
      simp [ProfileTab.buildPost, DiaryCard.build, ht, hr], fun _ => hb⟩
  }

theorem build_postCard (json : JsonCoding δ) (delta : δ) (image : String) (uid : Uid)
    (offset now timestamp viewer : Int) : ∃ snippet, WordOnlyDisplay.build json viewer
      (postCard (.string (json.jsonEncode delta)) image uid offset now timestamp) =
        some (uid, snippet) := by
  generalize hd : postCard (.string (json.jsonEncode delta)) image uid offset now timestamp = doc
  have hu : doc.string "poster_uid" = some uid := hd ▸ rfl
  have hb : doc.string "card_background" = some image := hd ▸ rfl
  have hq : doc.string "diary_content" = some (json.jsonEncode delta) := hd ▸ rfl
  have ht : doc.timestamp "creation_timestamp" = some timestamp := hd ▸ rfl
  simp [WordOnlyDisplay.build, SnippetView.read, hu, hb, hq, ht]

theorem readablePost_postCard (delta : δ) (image : String) (uid : Uid)
    (offset now timestamp : Int) : ReadablePost json
      (postCard (.string (json.jsonEncode delta)) image uid offset now timestamp) where
  ordered := rfl
  color _ := nofun
  passes  := passes_isSome .card
  home viewer := by
    have ⟨snippet, hs⟩ := build_postCard json delta image uid offset now timestamp viewer
    refine ⟨.wordOnlyDisplay uid snippet, ?_, by simp [PostCard.opensReader]⟩
    simp only [HomeTab.buildPost, hs]
    rfl
  profile viewer := by
    have ⟨snippet, hs⟩ := build_postCard json delta image uid offset now timestamp viewer
    refine ⟨.wordOnlyDisplay uid snippet, ?_, by simp [PostCard.opensReader]⟩
    simp only [ProfileTab.buildPost, WordOnlyDisplayProfile.build, hs]
    rfl

namespace Journal

variable {j j' : Journal}

def Everywhere (P : Document → Prop) (c : Uid → Collection DocId) : Prop :=
  ∀ uid id doc, c uid id = some doc → P doc

theorem Everywhere.update (h : Everywhere P c) (hd : ∀ id doc, docs id = some doc → P doc)
    (uid : Uid) : Everywhere P (Function.update c uid docs) := by
  intro u id doc hu
  rw [Function.update_apply] at hu
  split at hu
  case isTrue  => exact hd id doc hu
  case isFalse => exact h u id doc hu

theorem Everywhere.add {id : DocId} (h : Everywhere P c) (ha : add c uid id doc = some c')
    (hp : P doc) : Everywhere P c' := by
  simp only [Journal.add, Option.ite_none_right_eq_some, Option.some.injEq] at ha
  refine ha.right ▸ h.update (fun i d hi => ?_) uid
  rw [Function.update_apply] at hi
  split at hi
  case isTrue  => exact Option.some.inj hi ▸ hp
  case isFalse => exact h uid i d hi

-- A diary with the date by which it is ordered.
structure Written (json : JsonCoding δ) (doc : Document) : Prop extends HasDiary json doc where
  ordered : (doc "creation_timestamp").isSome

structure Sound (json : JsonCoding δ) (j : Journal) : Prop where
  diaries : Everywhere (Written json) j.personalDiaries
  posts   : Everywhere (ReadablePost json) j.posts
  opened  : ∀ diary ∈ j.opened, HasDiary json diary.data

theorem sound_empty (json : JsonCoding δ) : Sound json empty where
  diaries _ _ _ := nofun
  posts _ _ _   := nofun
  opened _      := nofun

theorem Written.edited (h : Written json doc) (delta : δ) (now : Int) :
    Written json (doc.update (DiaryEditorScreen.changes json delta now)) where
  toHasDiary := h.toHasDiary.edited delta now
  ordered    := by
    rw [Document.update_of_not_mem (by simp [DiaryEditorScreen.changes])]
    exact h.ordered

theorem Sound.step (h : Sound json j) (hs : j.step json e = some j') : Sound json j' := by
  cases e
  case createDiary uid id title delta colorID offset now currentTimestamp =>
    simp only [Journal.step, Option.ite_none_right_eq_some, Option.bind_eq_bind,
      Option.bind_eq_some_iff, Option.pure_def, Option.some.injEq] at hs
    obtain ⟨hc, _, ha, hs⟩ := hs
    subst hs
    exact { h with diaries := h.diaries.add ha ⟨.created title delta hc .., rfl⟩ }
  case openDiary uid id =>
    simp only [Journal.step, Option.bind_eq_bind, Option.bind_eq_some_iff, Option.pure_def,
      Option.some.injEq] at hs
    obtain ⟨data, hd, hs⟩ := hs
    subst hs
    have hw := h.diaries uid id data hd
    exact { h with opened := by simpa [or_imp, forall_and] using ⟨h.opened, hw.toHasDiary⟩ }
  case editDiary i delta now =>
    simp only [Journal.step, perform, Option.bind_eq_bind, Option.bind_eq_some_iff,
      Option.map_eq_some_iff, Option.pure_def, Option.some.injEq] at hs
    obtain ⟨diary, hd, _, ⟨doc, hw, rfl⟩, rfl⟩ := hs
    refine { h with diaries := h.diaries.update (fun id d hi => ?_) diary.uid }
    simp only [Function.update_apply] at hi
    split at hi
    case isTrue  => exact Option.some.inj hi ▸ (h.diaries _ _ _ hw).edited delta now
    case isFalse => exact h.diaries _ id d hi
  case deleteDiary i =>
    simp only [Journal.step, Option.bind_eq_bind, Option.bind_eq_some_iff, Option.pure_def,
      Option.some.injEq] at hs
    obtain ⟨diary, _, hs⟩ := hs
    subst hs
    refine { h with diaries := h.diaries.update (fun id d hi => ?_) diary.uid }
    rw [Function.update_apply] at hi
    split at hi
    case isTrue  => cases hi
    case isFalse => exact h.diaries _ id d hi
  case postDiary i id offset now timestamp =>
    simp only [Journal.step, Option.bind_eq_bind, Option.bind_eq_some_iff, Option.pure_def,
      Option.some.injEq] at hs
    obtain ⟨diary, hd, _, hp, _, ha, hs⟩ := hs
    subst hs
    have hw := h.opened diary (List.mem_of_getElem? hd)
    exact { h with posts := h.posts.add ha (readablePost_postDiary hw hp) }
  case postCard uid id delta backgroundImage offset now timestamp =>
    simp only [Journal.step, Option.bind_eq_bind, Option.bind_eq_some_iff, Option.pure_def,
      Option.some.injEq] at hs
    obtain ⟨_, ha, hs⟩ := hs
    subst hs
    exact { h with posts := h.posts.add ha (readablePost_postCard ..) }

-- However diaries and posts come about, all of their readers find what they read. This also goes for
-- what screens still show of diaries that have been changed since.
theorem readable_of_run (r : Run (Fires (step json)) empty es j) :
    (∀ uid id doc, j.personalDiaries uid id = some doc → ReadableDiary json doc) ∧
    (∀ uid id doc, j.posts uid id = some doc → ReadablePost json doc) ∧
    (∀ diary ∈ j.opened, (DiaryEditorScreen.build json diary.data).isSome ∧
      (DiaryPostingScreen.build json diary.data).isSome) := by
  have h := r.invariant (I := Sound json) Sound.step (sound_empty json)
  refine ⟨fun uid id doc hd => ?_, h.posts, fun diary hd => ?_⟩
  · have hw := h.diaries uid id doc hd
    exact hw.readable hw.ordered
  · have ⟨_, hr⟩ := (h.opened diary hd).read
    exact ⟨Option.isSome_of_eq_some hr, Option.isSome_of_eq_some hr⟩

-- Texts that are their own code.
def plainText : JsonCoding String :=
  ⟨id, some, fun _ => rfl⟩

-- Alice writes a diary, edits it while a screen shows what she wrote first, and posts that and a
-- snippet.
def editAndPost : List (JournalEvent String) := [
  .createDiary "alice" "diary" "Title" "first" 7 0 0 0,
  .openDiary "alice" "diary",
  .editDiary 0 "second" 1,
  .postDiary 0 "post" 0 2 2,
  .postCard "alice" "card" "snippet" "vibrantBackground" 0 3 3
]

theorem readable_of_editAndPost : ∃ j, Run (Fires (step plainText)) empty editAndPost j ∧
    (j.posts "alice" "post").isSome ∧ (j.posts "alice" "card").isSome ∧
    (∀ uid id doc, j.personalDiaries uid id = some doc → ReadableDiary plainText doc) ∧
    (∀ uid id doc, j.posts uid id = some doc → ReadablePost plainText doc) ∧
    (∀ diary ∈ j.opened, (DiaryEditorScreen.build plainText diary.data).isSome ∧
      (DiaryPostingScreen.build plainText diary.data).isSome) := by
  have ⟨j, r, hp, hc⟩ : ∃ j, Run (Fires (step plainText)) empty editAndPost j ∧
      (j.posts "alice" "post").isSome ∧ (j.posts "alice" "card").isSome :=
    ⟨_, .step rfl <| .step rfl <| .step rfl <| .step rfl <| .single rfl, rfl, rfl⟩
  exact ⟨j, r, hp, hc, readable_of_run r⟩

end Journal
