import Mathlib

namespace Calendar

-- A date of the proleptic Gregorian calendar, valid or not.
@[ext]
structure Date where
  year : Int
  month : Nat
  day : Nat
  deriving DecidableEq, Repr

def isLeapYear (y : Int) : Bool :=
  y % 4 = 0 ∧ (y % 100 ≠ 0 ∨ y % 400 = 0)

def monthLengths (y : Int) : List Nat :=
  [31, if isLeapYear y then 29 else 28, 31, 30, 31, 30, 31, 31, 30, 31, 30, 31]

-- The days from 0001-01-01 to the first of a year.
def daysBeforeYear (y : Int) : Int :=
  365 * (y - 1) + (y - 1) / 4 - (y - 1) / 100 + (y - 1) / 400

-- The days from 0001-01-01 to 1970-01-01.
def epoch : Int :=
  719162

-- The year of the day `n` after 0001-01-01, and the number of the days before it in that year.
def yearOf (n : Int) : Int × Int :=
  let century := min (n % 146097 / 36524) 3
  let n₁₀₀ := n % 146097 - 36524 * century
  let year := min (n₁₀₀ % 1461 / 365) 3
  (400 * (n / 146097) + 100 * century + 4 * (n₁₀₀ / 1461) + year + 1, n₁₀₀ % 1461 - 365 * year)

-- The month and its day that follow after `n` days, given the lengths of the months.
def monthDay : List Nat → Nat → Nat × Nat
  | [], n => (1, n + 1)
  | l :: ls, n => if n < l then (1, n + 1) else ((monthDay ls (n - l)).1 + 1, (monthDay ls (n - l)).2)

namespace Date

structure Valid (d : Date) : Prop where
  month_pos : 1 ≤ d.month
  month_le : d.month ≤ 12
  day_pos : 1 ≤ d.day
  day_le : ∃ l ∈ (monthLengths d.year)[d.month - 1]?, d.day ≤ l

-- The days since 1970-01-01.
def toDays (d : Date) : Int :=
  daysBeforeYear d.year + ((monthLengths d.year).take (d.month - 1)).sum + d.day - 1 - epoch

def ofDays (n : Int) : Date :=
  let (y, d) := yearOf (n + epoch)
  ⟨y, (monthDay (monthLengths y) d.toNat).1, (monthDay (monthLengths y) d.toNat).2⟩

end Date

-- Years are counted by their place in a cycle of 400 years, a century, and a cycle of 4 years.
section

variable {q c f y : Int} (hc : 0 ≤ c ∧ c ≤ 3) (hf : 0 ≤ f ∧ f ≤ 24) (hy : 0 ≤ y ∧ y ≤ 3)
include hc hf hy

theorem daysBeforeYear_cycles : daysBeforeYear (400 * q + 100 * c + 4 * f + y + 1) =
    146097 * q + 36524 * c + 1461 * f + 365 * y := by
  have h₄ : (400 * q + 100 * c + 4 * f + y) / 4 = 100 * q + 25 * c + f := by omega
  have h₁₀₀ : (400 * q + 100 * c + 4 * f + y) / 100 = 4 * q + c := by omega
  have h₄₀₀ : (400 * q + 100 * c + 4 * f + y) / 400 = q := by omega
  simp only [daysBeforeYear, Int.add_sub_cancel, h₄, h₁₀₀, h₄₀₀]
  omega

theorem isLeapYear_cycles :
    isLeapYear (400 * q + 100 * c + 4 * f + y + 1) ↔ y = 3 ∧ (f = 24 → c = 3) := by
  have h₄ : (400 * q + 100 * c + 4 * f + y + 1) % 4 = 0 ↔ y = 3 := by omega
  have h₁₀₀ : (400 * q + 100 * c + 4 * f + y + 1) % 100 = 0 ↔ f = 24 ∧ y = 3 := by omega
  have h₄₀₀ : (400 * q + 100 * c + 4 * f + y + 1) % 400 = 0 ↔ c = 3 ∧ f = 24 ∧ y = 3 := by omega
  simp only [isLeapYear, h₄, h₁₀₀, h₄₀₀, ne_eq, decide_eq_true_eq]
  grind

end

theorem yearOf_cycles (n : Int) : ∃ q c f y,
    (0 ≤ c ∧ c ≤ 3) ∧ (0 ≤ f ∧ f ≤ 24) ∧ (0 ≤ y ∧ y ≤ 3) ∧
    (yearOf n).1 = 400 * q + 100 * c + 4 * f + y + 1 ∧
    n = 146097 * q + 36524 * c + 1461 * f + 365 * y + (yearOf n).2 ∧
    0 ≤ (yearOf n).2 ∧ (yearOf n).2 ≤ 365 ∧
    ((yearOf n).2 = 365 → y = 3 ∧ (f = 24 → c = 3)) := by
  simp only [yearOf]
  generalize hr : n % 146097 = r
  generalize hc : min (r / 36524) 3 = c
  generalize hf : r - 36524 * c = f
  generalize hy : min (f % 1461 / 365) 3 = y
  refine ⟨n / 146097, c, f / 1461, y, ?_, ?_, ?_, rfl, ?_, ?_, ?_, ?_⟩
  all_goals omega

theorem yearOf_spec (n : Int) : daysBeforeYear (yearOf n).1 + (yearOf n).2 = n ∧
    0 ≤ (yearOf n).2 ∧ (yearOf n).2 < (monthLengths (yearOf n).1).sum := by
  obtain ⟨q, c, f, y, hc, hf, hy, hn, hd, h₀, h₁, hl⟩ := yearOf_cycles n
  rw [hn, daysBeforeYear_cycles hc hf hy]
  refine ⟨hd.symm, h₀, ?_⟩
  by_cases hi : isLeapYear (400 * q + 100 * c + 4 * f + y + 1)
  case pos =>
    simp [monthLengths, hi]
    omega
  case neg =>
    have hn : (yearOf n).2 ≠ 365 := fun he => hi ((isLeapYear_cycles hc hf hy).mpr (hl he))
    simp [monthLengths, hi]
    omega

theorem monthDay_spec (ls : List Nat) (h : n < ls.sum) :
    1 ≤ (monthDay ls n).1 ∧ (monthDay ls n).1 ≤ ls.length ∧ 1 ≤ (monthDay ls n).2 ∧
    (∃ l ∈ ls[(monthDay ls n).1 - 1]?, (monthDay ls n).2 ≤ l) ∧
    (ls.take ((monthDay ls n).1 - 1)).sum + (monthDay ls n).2 = n + 1 := by
  induction ls generalizing n
  case nil => simp at h
  case cons l ls hi =>
    rw [monthDay]
    split
    case isTrue hn => simpa [Nat.add_one_le_iff] using hn
    case isFalse hn =>
      rw [List.sum_cons] at h
      obtain ⟨hm, hm', hd, hl, hs⟩ := hi (n := n - l) (by omega)
      have he : (monthDay ls (n - l)).1 = (monthDay ls (n - l)).1 - 1 + 1 := by omega
      refine ⟨by omega, by simpa using hm', hd, ?_, ?_⟩
      · rw [Nat.add_sub_cancel, he]
        simpa using hl
      · rw [Nat.add_sub_cancel, he]
        simp only [List.take_succ_cons, List.sum_cons]
        omega

namespace Date

theorem valid_ofDays (n : Int) : (ofDays n).Valid := by
  have ⟨_, h₀, h₁⟩ := yearOf_spec (n + epoch)
  have ⟨hm, hm', hd, hl, _⟩ := monthDay_spec (n := (yearOf (n + epoch)).2.toNat)
    (monthLengths (yearOf (n + epoch)).1) (by omega)
  exact ⟨hm, hm', hd, hl⟩

theorem toDays_ofDays (n : Int) : (ofDays n).toDays = n := by
  have ⟨h, h₀, h₁⟩ := yearOf_spec (n + epoch)
  have ⟨_, _, _, _, hs⟩ := monthDay_spec (n := (yearOf (n + epoch)).2.toNat)
    (monthLengths (yearOf (n + epoch)).1) (by omega)
  simp only [ofDays, toDays]
  omega

theorem Valid.day_le_31 {d : Date} (h : d.Valid) : d.day ≤ 31 := by
  obtain ⟨l, hl, hd⟩ := h.day_le
  have hm := List.mem_of_getElem? hl
  simp only [monthLengths, List.mem_cons, List.not_mem_nil, or_false] at hm
  have : (if isLeapYear d.year then 29 else 28) ≤ 29 := by split <;> decide
  omega

end Date
end Calendar
