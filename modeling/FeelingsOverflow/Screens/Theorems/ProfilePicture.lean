import FeelingsOverflow.Screens.ProfileTab
import FeelingsOverflow.Execution.Run

open Firestore Execution ImageFunction

namespace ProfileTab

variable {url : String → Image → String} {uid : Uid} {o : ImageOutcome} {p p' : Profile}

def Profile.profilepic (uid : Uid) (p : Profile) : Option Value :=
  field p.users uid "profilepic"

-- The picture stays the same or is one that is stored. It is not erased, and it is the new one if
-- nothing fails.
structure Kept (url : String → Image → String) (uid : Uid) (p : Profile) (o : ImageOutcome)
    (p' : Profile) : Prop where
  shown     : p'.profilepic uid = p.profilepic uid ∨ ∃ image, p'.storage (path uid) = some image ∧
    p'.profilepic uid = some (.string (url (path uid) image))
  notErased : p'.profilepic uid = some (.string "") → p.profilepic uid = some (.string "")
  changed   : ∀ im, o.picked = some im → o.uploaded → o.located →
    p'.profilepic uid = some (.string (url (path uid) im))

-- Nothing is picked, or there is a URL of an image. Otherwise there is nothing to be lost.
def Safe (uid : Uid) (p : Profile) (o : ImageOutcome) : Prop :=
  o.picked = none ∨ o.located ∧ (o.uploaded ∨ (p.storage (path uid)).isSome) ∨
    p.profilepic uid = some (.string "")

def Selects (url : String → Image → String) (uid : Uid) (p : Profile) (o : ImageOutcome)
    (p' : Profile) : Prop :=
  selectImage url uid o p = p'

def HasPicture (uid : Uid) (p : Profile) : Prop :=
  ∃ pic, p.profilepic uid = some (.string pic)

theorem Selects.storage (h : Selects url uid p o p') (hi : o.picked = some im) :
    p'.storage = uploadFile im uid o.uploaded p.storage := by
  obtain rfl := h
  simp only [selectImage, hi]

theorem Selects.profilepic (h : Selects url uid p o p') (hp : HasPicture uid p)
    (hi : o.picked = some im) : p'.profilepic uid =
      some (.string (getDownloadURL url uid o.located p'.storage)) := by
  obtain ⟨pic, hp⟩ := hp
  have hs := isSome_of_field hp
  obtain rfl := h
  simp only [Profile.profilepic, selectImage, hi, eval_update hs, field_updated hs]
  rfl

theorem HasPicture.step (hp : HasPicture uid p) (h : Selects url uid p o p') : HasPicture uid p' := by
  cases hi : o.picked
  case none =>
    simp only [Selects, selectImage, hi] at h
    exact h ▸ hp
  case some im => exact ⟨_, h.profilepic hp hi⟩

theorem uploaded_isSome_iff {im : Image} {ok : Bool} {s : Storage} :
    (uploadFile im uid ok s (path uid)).isSome ↔ ok ∨ (s (path uid)).isSome := by
  cases ok <;> simp [uploadFile]

theorem getDownloadURL_of_some {s : Storage} (hs : s (path uid) = some image) :
    getDownloadURL url uid true s = url (path uid) image := by
  simp only [getDownloadURL, hs]

theorem getDownloadURL_of_not {ok : Bool} {s : Storage} (h : ¬(ok ∧ (s (path uid)).isSome)) :
    getDownloadURL url uid ok s = "" := by
  cases ok
  case false => rfl
  case true =>
    have hs : s (path uid) = none := by simpa using h
    simp only [getDownloadURL, hs]

theorem kept_iff (hu : ∀ path image, url path image ≠ "") (hp : HasPicture uid p)
    (h : Selects url uid p o p') : Kept url uid p o p' ↔ Safe uid p o := by
  cases hi : o.picked
  case none =>
    simp only [Selects, selectImage, hi] at h
    subst h
    exact iff_of_true ⟨.inl rfl, id, by simp [hi]⟩ (.inl hi)
  case some im =>
    have hs := h.storage hi
    have hn := h.profilepic hp hi
    have hl : (p'.storage (path uid)).isSome ↔ o.uploaded ∨ (p.storage (path uid)).isSome :=
      hs ▸ uploaded_isSome_iff
    by_cases ho : o.located ∧ (p'.storage (path uid)).isSome
    case pos =>
      obtain ⟨image, hm⟩ := Option.isSome_iff_exists.mp ho.right
      rw [ho.left, getDownloadURL_of_some hm] at hn
      refine iff_of_true ⟨.inr ⟨image, hm, hn⟩, fun he => ?_, fun im' hi' ht _ => ?_⟩
        (.inr <| .inl ⟨ho.left, hl.mp ho.right⟩)
      · simp [hn, hu] at he
      · obtain rfl := Option.some.inj <| hi.symm.trans hi'
        rw [hs, uploadFile, if_pos ht, Function.update_self, Option.some.injEq] at hm
        exact hm ▸ hn
    case neg =>
      rw [getDownloadURL_of_not ho] at hn
      have hne : ¬(o.located ∧ (o.uploaded ∨ (p.storage (path uid)).isSome)) :=
        fun ⟨hl', hs⟩ => ho ⟨hl', hl.mpr hs⟩
      simp only [Safe, hi, reduceCtorEq, hne, false_or]
      constructor
      · exact fun hk => hk.notErased hn
      · intro he
        refine ⟨.inl <| hn.trans he.symm, fun _ => he, fun _ _ ht hl' => ?_⟩
        exact absurd ⟨hl', .inl ht⟩ hne

-- A sequence of attempts keeps the picture exactly when each of them gets a URL or has nothing to
-- lose.
theorem kept_run_iff (hu : ∀ path image, url path image ≠ "") (hp : HasPicture uid p) :
    Run (fun p o p' => Kept url uid p o p' ∧ Selects url uid p o p') p os p' ↔
      Run (Guarded (Safe uid) (Selects url uid)) p os p' :=
  Run.relates_iff_guarded (J := HasPicture uid) (fun hp _ h => hp.step h) (kept_iff hu) hp

-- A user who has no picture in the storage yet.
def registered : Profile where
  users   := FirebaseMethods.registered ["alice"]
  storage := fun _ => none
  fields  := initial

def storageURL (path : String) (image : Image) : String :=
  "https://" ++ path ++ toString image

theorem storageURL_ne_empty (path : String) (image : Image) : storageURL path image ≠ "" := by
  intro h
  have hl := congrArg String.length h
  simp [storageURL, String.length_append] at hl

-- The second upload fails, and leaves the picture of the first one.
theorem kept_of_upload : ∃ p, Run (fun p o p' => Kept storageURL "alice" p o p' ∧
    Selects storageURL "alice" p o p') registered [⟨some [1], true, true⟩, ⟨some [2], false, true⟩] p := by
  obtain ⟨p₁, h₁⟩ : ∃ p₁, Selects storageURL "alice" registered ⟨some [1], true, true⟩ p₁ := ⟨_, rfl⟩
  have hs : (p₁.storage (path "alice")).isSome :=
    h₁.storage rfl ▸ uploaded_isSome_iff.mpr (.inl rfl)
  exact ⟨_, (kept_run_iff storageURL_ne_empty ⟨_, rfl⟩).mpr <|
    .step ⟨.inr <| .inl ⟨rfl, .inl rfl⟩, h₁⟩ <| .single ⟨.inr <| .inl ⟨rfl, .inr hs⟩, rfl⟩⟩

-- The request for the URL fails after the upload.
theorem not_kept_of_noURL : ∃ p, Selects storageURL "alice" registered ⟨some [1], true, false⟩ p ∧
    p.profilepic "alice" = some (.string "") ∧
    ¬Kept storageURL "alice" registered ⟨some [1], true, false⟩ p := by
  refine ⟨_, rfl, rfl, fun h => ?_⟩
  have he : registered.profilepic "alice" = some (.string "") := h.notErased rfl
  exact absurd he (by decide)

end ProfileTab
