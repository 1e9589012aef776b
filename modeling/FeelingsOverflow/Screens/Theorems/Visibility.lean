import FeelingsOverflow.Screens.HomeTab

open Firestore FirebaseMethods Calendar

namespace HomeTab

-- By how many seconds the date of a post is off, when it is read on another device.
def shift (poster viewer posted : Int) : Int :=
  poster - viewer + if (DateTime.toLocal poster posted).hour = 0 then 24 * 60 * 60 else 0

theorem passes_eq (h : Posted poster posted doc) (viewer t : Int) :
    passes viewer t doc = some (decide <|
      (posted / 1000000 * 1000000 + shift poster viewer posted * 1000000 - t).natAbs <
        24 * 60 * 60 * 1000000) := by
  have hv := DateTime.valid_toLocal poster posted
  have hi := DateTime.instant_toLocal poster posted
  have hd : ({ DateTime.toLocal poster posted with
        hour := if (DateTime.toLocal poster posted).hour = 0 then 24
          else (DateTime.toLocal poster posted).hour } : DateTime).instant viewer =
      posted / 1000000 * 1000000 + shift poster viewer posted * 1000000 := by
    rw [←hi]
    simp only [DateTime.instant, shift]
    split
    case isTrue hn => simp only [hn]; omega
    case isFalse   => omega
  simp only [passes, h.post_date, DateTime.parse_format hv, Option.bind_eq_bind, Option.bind_some,
    hd, Option.pure_def, Option.some.injEq, decide_eq_decide, Int.natAbs_tdiv]
  exact Nat.div_lt_iff_lt_mul (k := (60 * 1000000 : Int).natAbs) (by decide)

-- No post makes the filter throw.
theorem filteredList_eq (h : ∀ doc ∈ docs, ∃ poster posted, Posted poster posted doc)
    (viewer t : Int) :
    filteredList viewer t docs = some (docs.filter fun doc => passes viewer t doc = some true) := by
  induction docs
  case nil => rfl
  case cons doc docs hi =>
    obtain ⟨_, _, hp⟩ := h doc (by simp)
    obtain ⟨b, hb⟩ : ∃ b, passes viewer t doc = some b := ⟨_, passes_eq hp viewer t⟩
    simp only [filteredList, hi fun doc hd => h doc (by simp [hd]), hb, List.filter_cons]
    cases b <;> simp

-- Posts are visible for 24 hours from the second they were made in.
theorem visible_iff (h : Posted poster posted doc) (viewer : Int) :
    (∀ t, posted ≤ t → (passes viewer t doc = some true ↔
      t - posted / 1000000 * 1000000 < 24 * 60 * 60 * 1000000)) ↔ shift poster viewer posted = 0 := by
  simp only [passes_eq h, Option.some.injEq, decide_eq_true_eq]
  generalize shift poster viewer posted = d
  constructor
  · intro ha
    by_contra hd
    have h₀ := ha posted (Int.le_refl _)
    have h₁ := ha (posted / 1000000 * 1000000 + 24 * 60 * 60 * 1000000) (by omega)
    have h₂ := ha (posted / 1000000 * 1000000 + 24 * 60 * 60 * 1000000 - 1) (by omega)
    omega
  · intro hd t ht
    omega

-- A card that is posted on 2023-07-01 in Singapore, at 12:00:00 or half an hour after midnight.
def noon : Int :=
  1688184000 * 1000000

def afterMidnight : Int :=
  1688142600 * 1000000

def card (posted : Int) : Document :=
  postCard (.string "[]") "backgroundPastel" "alice" 28800 posted posted

example : card afterMidnight "post_date" = some (.string "2023-07-01 24:30:00") := by
  decide

theorem visible_of_noon : Posted 28800 noon (card noon) ∧
    passes 28800 (noon + 23 * 60 * 60 * 1000000) (card noon) = some true := by
  refine ⟨.card, ?_⟩
  exact ((visible_iff .card 28800).mpr (by decide) _ (by decide)).mpr (by decide)

theorem not_visible_of_afterMidnight : ∃ t, Posted 28800 afterMidnight (card afterMidnight) ∧
    afterMidnight ≤ t ∧ passes 28800 t (card afterMidnight) = some true ∧
    ¬t - afterMidnight / 1000000 * 1000000 < 24 * 60 * 60 * 1000000 := by
  refine ⟨afterMidnight + 24 * 60 * 60 * 1000000, .card, by decide, ?_, by decide⟩
  exact (passes_eq .card ..).trans (by decide)

end HomeTab
