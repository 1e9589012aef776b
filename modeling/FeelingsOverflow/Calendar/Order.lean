import FeelingsOverflow.Calendar.DateTime

namespace Calendar

-- Texts whose parts have equal lengths are compared part by part.
section

variable {α : Type} [LinearOrder α] {xs ys xs' ys' : List α}

theorem append_lt_append_iff (h : xs.length = ys.length) :
    xs ++ xs' < ys ++ ys' ↔ xs < ys ∨ xs = ys ∧ xs' < ys' := by
  induction xs generalizing ys
  case nil =>
    cases ys
    case nil  => simp
    case cons => simp at h
  case cons x xs hi =>
    cases ys
    case nil => simp at h
    case cons y ys =>
      simp only [List.cons_append, List.cons_lt_cons_iff, hi (Nat.succ.inj h), List.cons.injEq]
      grind

theorem cons_lt_cons_self_iff {x : α} : x :: xs < x :: ys ↔ xs < ys := by
  simp

end

section

variable {cs ds : List Char} {n m w : Nat}

theorem mul_add_lt_mul_add_iff {p k l r t : Nat} (hr : r < p) (ht : t < p) :
    p * k + r < p * l + t ↔ k < l ∨ k = l ∧ r < t := by
  cases Nat.lt_trichotomy k l
  case inl h =>
    have hp := Nat.mul_le_mul_left p h
    rw [Nat.mul_succ] at hp
    omega
  case inr h =>
    cases h
    case inl h => subst h; omega
    case inr h =>
      have hp := Nat.mul_le_mul_left p h
      rw [Nat.mul_succ] at hp
      omega

theorem ofDigitChars_cons_zero {c : Char} : Nat.ofDigitChars 10 (c :: cs) 0 =
    10 ^ cs.length * (c.toNat - 48) + Nat.ofDigitChars 10 cs 0 := by
  rw [Nat.ofDigitChars_cons, Nat.ofDigitChars_eq_ofDigitChars_zero]
  simp

theorem ofDigitChars_lt_pow (h : ∀ c ∈ cs, c.isDigit) : Nat.ofDigitChars 10 cs 0 < 10 ^ cs.length := by
  induction cs
  case nil => simp
  case cons c cs hi =>
    have hc := Char.isDigit_iff_toNat.mp <| h c (by simp)
    have hd : c.toNat - 48 ≤ 9 := Nat.sub_le_of_le_add hc.right
    have hl := Nat.mul_le_mul_left (10 ^ cs.length) hd
    have hi := hi fun c hc => h c (by simp [hc])
    rw [ofDigitChars_cons_zero, List.length_cons, Nat.pow_succ]
    omega

-- Digits of one length are in the order of their numbers.
theorem lt_iff_ofDigitChars_lt (hc : ∀ c ∈ cs, c.isDigit) (hd : ∀ d ∈ ds, d.isDigit)
    (h : cs.length = ds.length) :
    cs < ds ↔ Nat.ofDigitChars 10 cs 0 < Nat.ofDigitChars 10 ds 0 := by
  induction cs generalizing ds
  case nil =>
    cases ds
    case nil  => simp
    case cons => simp at h
  case cons c cs hi =>
    cases ds
    case nil => simp at h
    case cons d ds =>
      have hl := Nat.succ.inj h
      have hc₀ := (Char.isDigit_iff_toNat.mp <| hc c (by simp)).left
      have hd₀ := (Char.isDigit_iff_toNat.mp <| hd d (by simp)).left
      have hcs : ∀ c ∈ cs, c.isDigit := fun c h => hc c (by simp [h])
      have hds : ∀ d ∈ ds, d.isDigit := fun d h => hd d (by simp [h])
      have he : c = d ↔ c.toNat - 48 = d.toNat - 48 := by
        rw [←Char.toNat_inj]
        simp only [Char.reduceToNat] at hc₀ hd₀
        omega
      have hlt : c < d ↔ c.toNat - 48 < d.toNat - 48 := by
        rw [show c < d ↔ c.toNat < d.toNat from Iff.rfl]
        simp only [Char.reduceToNat] at hc₀ hd₀
        omega
      rw [ofDigitChars_cons_zero, ofDigitChars_cons_zero, hl,
        mul_add_lt_mul_add_iff (hl ▸ ofDigitChars_lt_pow hcs) (ofDigitChars_lt_pow hds),
        List.cons_lt_cons_iff, hi hcs hds hl, he, hlt]

open DateTime

theorem length_pad_of_lt (h : n < 10 ^ w) (hw : 0 < w) : (pad w n).length = w := by
  have hd := Nat.length_toDigits_le_iff (b := 10) (n := n) (k := w) (by decide) hw
  rw [length_pad, Nat.max_eq_left (hd.mpr h)]

theorem pad_lt_pad_iff (hn : n < 10 ^ w) (hm : m < 10 ^ w) (hw : 0 < w) :
    pad w n < pad w m ↔ n < m := by
  rw [lt_iff_ofDigitChars_lt (fun _ => isDigit_of_mem_pad) (fun _ => isDigit_of_mem_pad)
    (by rw [length_pad_of_lt hn hw, length_pad_of_lt hm hw]), ofDigitChars_pad, ofDigitChars_pad]

theorem pad_inj : pad w n = pad w m ↔ n = m := by
  constructor
  · intro h
    have hd := ofDigitChars_pad (w := w) (n := n)
    rwa [h, ofDigitChars_pad, eq_comm] at hd
  · exact congrArg _

-- What follows after two numbers matters only if they are equal.
theorem pad_append_lt_iff (hn : n < 10 ^ w) (hm : m < 10 ^ w) (hw : 0 < w) :
    pad w n ++ cs < pad w m ++ ds ↔ n < m ∨ n = m ∧ cs < ds := by
  rw [append_lt_append_iff (by rw [length_pad_of_lt hn hw, length_pad_of_lt hm hw]),
    pad_lt_pad_iff hn hm hw, pad_inj]

end

theorem daysBeforeYear_succ (y : Int) :
    daysBeforeYear (y + 1) = daysBeforeYear y + (monthLengths y).sum := by
  have hl : (monthLengths y).sum = if isLeapYear y then 366 else 365 := by
    cases h : isLeapYear y <;> simp [monthLengths, h]
  rw [hl, isLeapYear, daysBeforeYear, daysBeforeYear]
  split
  case isTrue h =>
    simp only [decide_eq_true_eq] at h
    omega
  case isFalse h =>
    simp only [decide_eq_true_eq] at h
    omega

theorem daysBeforeYear_mono (h : y₁ ≤ y₂) : daysBeforeYear y₁ ≤ daysBeforeYear y₂ := by
  simp only [daysBeforeYear]
  omega

namespace Date

-- The order of the calendar.
def Before (d₁ d₂ : Date) : Prop :=
  d₁.year < d₂.year ∨ d₁.year = d₂.year ∧ (d₁.month < d₂.month ∨
    d₁.month = d₂.month ∧ d₁.day < d₂.day)

def dayOfYear (d : Date) : Nat :=
  ((monthLengths d.year).take (d.month - 1)).sum + d.day

variable {d d₁ d₂ : Date}

theorem toDays_eq (d : Date) : d.toDays = daysBeforeYear d.year + d.dayOfYear - 1 - epoch := by
  simp only [toDays, dayOfYear]
  omega

-- The days of a month lie between those of the months before and after it.
theorem Valid.dayOfYear_le (h : d.Valid) :
    d.dayOfYear ≤ ((monthLengths d.year).take d.month).sum := by
  have ⟨l, hl, hd⟩ := h.day_le
  have ⟨hi, hl⟩ := List.getElem?_eq_some_iff.mp hl
  have hs := List.sum_take_succ (monthLengths d.year) (d.month - 1) hi
  rw [Nat.sub_add_cancel h.month_pos, hl] at hs
  rw [hs, dayOfYear]
  omega

theorem Valid.dayOfYear_le_sum (h : d.Valid) : d.dayOfYear ≤ (monthLengths d.year).sum :=
  Nat.le_trans h.dayOfYear_le <| (List.take_sublist ..).sum_le_sum (by simp)

theorem Valid.dayOfYear_pos (h : d.Valid) : 0 < d.dayOfYear := by
  have hd := h.day_pos
  simp only [dayOfYear]
  omega

theorem toDays_lt (h₁ : d₁.Valid) (h₂ : d₂.Valid) (h : d₁.Before d₂) : d₁.toDays < d₂.toDays := by
  rw [toDays_eq, toDays_eq]
  cases h
  case inl hy =>
    have hd₁ := h₁.dayOfYear_le_sum
    have hd₂ := h₂.dayOfYear_pos
    have hs := daysBeforeYear_succ d₁.year
    have hm := daysBeforeYear_mono <| Int.add_one_le_of_lt hy
    omega
  case inr h =>
    have ⟨hy, h⟩ := h
    have hd : d₁.dayOfYear < d₂.dayOfYear := by
      cases h
      case inl hm =>
        have hd₁ := h₁.dayOfYear_le
        have hd₂ := h₂.day_pos
        have ht := List.monotone_sum_take (monthLengths d₂.year) (Nat.le_sub_one_of_lt hm)
        simp only [hy] at hd₁ ht
        simp only [dayOfYear] at hd₁ ⊢
        omega
      case inr h =>
        simp only [dayOfYear, hy, h.left]
        omega
    rw [hy]
    omega

theorem eq_or_before (d₁ d₂ : Date) : d₁ = d₂ ∨ d₁.Before d₂ ∨ d₂.Before d₁ := by
  simp only [Date.ext_iff, Before]
  omega

theorem toDays_lt_iff (h₁ : d₁.Valid) (h₂ : d₂.Valid) : d₁.toDays < d₂.toDays ↔ d₁.Before d₂ := by
  constructor
  · intro h
    cases eq_or_before d₁ d₂
    case inl he => exact absurd (he ▸ h) (Int.lt_irrefl _)
    case inr hb => exact hb.resolve_right fun hb => Int.lt_asymm h (toDays_lt h₂ h₁ hb)
  · exact toDays_lt h₁ h₂

theorem toDays_inj (h₁ : d₁.Valid) (h₂ : d₂.Valid) : d₁.toDays = d₂.toDays ↔ d₁ = d₂ := by
  constructor
  · intro h
    refine (eq_or_before d₁ d₂).resolve_right fun hb => ?_
    cases hb
    case inl hb => exact Int.ne_of_lt (toDays_lt h₁ h₂ hb) h
    case inr hb => exact Int.ne_of_lt (toDays_lt h₂ h₁ hb) h.symm
  · exact congrArg toDays

theorem ofDays_toDays (h : d.Valid) : ofDays d.toDays = d :=
  toDays_inj (valid_ofDays _) h |>.mp (toDays_ofDays _)

end Date

namespace DateTime

variable {d d₁ d₂ : DateTime}

theorem toLocal_instant (h : d.Valid) (offset : Int) : toLocal offset (d.instant offset) = d := by
  have hh := h.hour
  have hm := h.minute
  have hs := h.second
  have hd : (86400 * d.date.toDays + 3600 * d.hour + 60 * d.minute + d.second) / 86400 =
      d.date.toDays := by omega
  simp only [toLocal, instant, Int.mul_ediv_cancel _ (show (1000000 : Int) ≠ 0 by decide),
    Int.sub_add_cancel, hd, Date.ofDays_toDays h.date]
  ext1
  case date => rfl
  all_goals
    simp only
    omega

theorem normalize_of_valid (h : d.Valid) : d.normalize = d :=
  toLocal_instant h 0

-- The hour that is written: The one that starts at midnight is the 24th of the day before.
def written (d : DateTime) : DateTime :=
  { d with hour := if d.hour = 0 then 24 else d.hour }

@[simp]
theorem written_date (d : DateTime) : d.written.date = d.date :=
  rfl

@[simp]
theorem written_minute (d : DateTime) : d.written.minute = d.minute :=
  rfl

@[simp]
theorem written_second (d : DateTime) : d.written.second = d.second :=
  rfl

theorem instant_written (d : DateTime) (offset : Int) :
    d.written.instant offset =
      d.instant offset + if d.hour = 0 then 86400 * 1000000 else 0 := by
  simp only [instant, written]
  split
  case isTrue h => rw [h]; omega
  case isFalse  => omega

-- What is read is what was written, unless the hour is carried into the next day.
theorem normalize_written_iff (h : d.Valid) : d.written.normalize = d ↔ d.hour ≠ 0 := by
  constructor
  · intro he h₀
    have hi := congrArg (instant 0) he
    rw [normalize, instant_toLocal, instant_written, if_pos h₀] at hi
    have hd : d.instant 0 / 1000000 * 1000000 = d.instant 0 := by
      simp only [instant]
      omega
    omega
  · intro h₀
    rw [written, if_neg h₀]
    exact normalize_of_valid h

theorem Valid.hour_written (h : d.Valid) : 1 ≤ d.written.hour ∧ d.written.hour ≤ 24 := by
  have hh := h.hour
  simp only [written]
  split <;> omega

theorem toList_format (h : 0 ≤ d.date.year) : d.format.toList =
    pad 4 d.date.year.natAbs ++ '-' :: (pad 2 d.date.month ++ '-' :: (pad 2 d.date.day ++
      ' ' :: (pad 2 d.written.hour ++ ':' :: (pad 2 d.minute ++ ':' :: pad 2 d.second)))) := by
  simp [format, written, Int.not_lt.mpr h]

-- In the years of four digits, what is written is in the order of the instants that are read.
theorem format_lt_iff (h₁ : d₁.Valid) (h₂ : d₂.Valid)
    (hy₁ : 0 ≤ d₁.date.year ∧ d₁.date.year < 10000) (hy₂ : 0 ≤ d₂.date.year ∧ d₂.date.year < 10000)
    (offset : Int) :
    d₁.format < d₂.format ↔ d₁.written.instant offset < d₂.written.instant offset := by
  have hn₁ := h₁.date.month_le
  have hn₂ := h₂.date.month_le
  have hd₁ := h₁.date.day_le_31
  have hd₂ := h₂.date.day_le_31
  have hh₁ := h₁.hour_written
  have hh₂ := h₂.hour_written
  have hm₁ := h₁.minute
  have hm₂ := h₂.minute
  have hs₁ := h₁.second
  have hs₂ := h₂.second
  rw [String.lt_iff_toList_lt, toList_format hy₁.left, toList_format hy₂.left,
    pad_append_lt_iff (by omega) (by omega) (by decide), cons_lt_cons_self_iff,
    pad_append_lt_iff (by omega) (by omega) (by decide), cons_lt_cons_self_iff,
    pad_append_lt_iff (by omega) (by omega) (by decide), cons_lt_cons_self_iff,
    pad_append_lt_iff (by omega) (by omega) (by decide), cons_lt_cons_self_iff,
    pad_append_lt_iff (by omega) (by omega) (by decide), cons_lt_cons_self_iff,
    pad_lt_pad_iff (by omega) (by omega) (by decide)]
  have hb := Date.toDays_lt_iff h₁.date h₂.date
  have he := Date.toDays_inj h₁.date h₂.date
  simp only [Date.Before, Date.ext_iff] at hb he
  simp only [instant, written_date, written_minute, written_second]
  omega

end DateTime
end Calendar
