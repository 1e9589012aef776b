import FeelingsOverflow.Calendar.Order
import FeelingsOverflow.Functionality.Posts
import FeelingsOverflow.Screens.PostReader

open Firestore FirebaseMethods Calendar DateTime

namespace PostReaderScreen

-- The date that is read from a post, before anything is carried over.
def readDate (doc : Document) : Option DateTime :=
  (doc.string "post_date").bind DateTime.parse

def FourDigits (year : Int) : Prop :=
  0 ≤ year ∧ year < 10000

-- Texts and instants, if there are any, are in the same order.
def SameOrder (offset : Int) (doc doc' : Document) : Prop :=
  ∀ s s' d d', doc.string "post_date" = some s → doc'.string "post_date" = some s' →
    readDate doc = some d → readDate doc' = some d' →
    (s < s' ↔ d.instant offset < d'.instant offset)

-- A post made at `posted` tells the date and the time of its making.
structure RoundTrip (offset posted : Int) (doc : Document) : Prop where
  parsed : (readDate doc).map normalize = some (toLocal offset posted)
  shown : postedOnLine doc = some ("Posted on " ++ (toLocal offset posted).formatToMinute)
  sorted : ∀ posted' doc', Posted offset posted' doc' → FourDigits (toLocal offset posted').date.year →
    SameOrder offset doc doc' ∧ SameOrder offset doc' doc

variable {doc doc' : Document} {offset posted posted' : Int}

theorem string_post_date (h : Posted offset posted doc) :
    doc.string "post_date" = some (toLocal offset posted).format := by
  rw [Document.string, h.post_date]

theorem readDate_eq (h : Posted offset posted doc) :
    readDate doc = some (toLocal offset posted).written := by
  rw [readDate, string_post_date h, Option.bind_some]
  exact parse_format <| valid_toLocal ..

theorem postedOnLine_eq (h : Posted offset posted doc) : postedOnLine doc =
    some ("Posted on " ++ (toLocal offset posted).written.normalize.formatToMinute) := by
  have hp := parse_format <| valid_toLocal offset posted
  simp only [postedOnLine, string_post_date h, Option.bind_eq_bind, Option.bind_some, hp]
  rfl

theorem sameOrder_of_posted (h : Posted offset posted doc) (h' : Posted offset posted' doc')
    (hy : FourDigits (toLocal offset posted).date.year)
    (hy' : FourDigits (toLocal offset posted').date.year) : SameOrder offset doc doc' := by
  intro s s' d d' hs hs' hd hd'
  rw [string_post_date h, Option.some.injEq] at hs
  rw [string_post_date h', Option.some.injEq] at hs'
  rw [readDate_eq h, Option.some.injEq] at hd
  rw [readDate_eq h', Option.some.injEq] at hd'
  rw [←hs, ←hs', ←hd, ←hd']
  exact format_lt_iff (valid_toLocal ..) (valid_toLocal ..) hy hy' offset

theorem roundTrip_iff (h : Posted offset posted doc)
    (hy : FourDigits (toLocal offset posted).date.year) :
    RoundTrip offset posted doc ↔ (toLocal offset posted).hour ≠ 0 := by
  have hn := normalize_written_iff (valid_toLocal offset posted)
  constructor
  · intro hr
    have hp := hr.parsed
    rw [readDate_eq h, Option.map_some, Option.some.injEq] at hp
    exact hn.mp hp
  · intro h₀
    have he := hn.mpr h₀
    exact {
      parsed := by rw [readDate_eq h, Option.map_some, he]
      shown  := by rw [postedOnLine_eq h, he]
      sorted := fun _ _ h' hy' => ⟨sameOrder_of_posted h h' hy hy', sameOrder_of_posted h' h hy' hy⟩
    }

-- Cards that are posted in Singapore at noon, and half an hour after the last day of 2023 began.
def noonCard : Document :=
  postCard (.string "[]") "backgroundPastel" "alice" 28800 (1688184000 * 1000000) 0

def newYearsEveCard : Document :=
  postCard (.string "[]") "backgroundPastel" "alice" 28800 (1703953800 * 1000000) 0

theorem roundTrip_of_noon : RoundTrip 28800 (1688184000 * 1000000) noonCard :=
  roundTrip_iff .card ⟨by decide, by decide⟩ |>.mpr (by decide)

-- The reader is told that the card was posted on the first day of 2024.
theorem not_roundTrip_of_newYearsEve :
    Posted 28800 (1703953800 * 1000000) newYearsEveCard ∧
    FourDigits (toLocal 28800 (1703953800 * 1000000)).date.year ∧
    postedOnLine newYearsEveCard = some "Posted on 01/01/2024 00:30" ∧
    ¬RoundTrip 28800 (1703953800 * 1000000) newYearsEveCard :=
  ⟨.card, ⟨by decide, by decide⟩, by decide, fun h => absurd h.parsed (by decide)⟩

end PostReaderScreen
