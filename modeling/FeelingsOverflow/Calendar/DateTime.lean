import FeelingsOverflow.Calendar.Date

namespace Calendar

-- What a calendar and a clock show. Instants are the microseconds since 1970-01-01 00:00:00 UTC, and
-- the offset of local time from UTC is given in seconds.
@[ext]
structure DateTime where
  date : Date
  hour : Nat
  minute : Nat
  second : Nat
  deriving DecidableEq, Repr

namespace DateTime

def toLocal (offset instant : Int) : DateTime :=
  let seconds := instant / 1000000 + offset
  { date   := .ofDays (seconds / 86400)
    hour   := (seconds % 86400 / 3600).toNat
    minute := (seconds % 3600 / 60).toNat
    second := (seconds % 60).toNat }

-- Hours, minutes and seconds that are out of range are carried over.
def instant (offset : Int) (d : DateTime) : Int :=
  (86400 * d.date.toDays + 3600 * d.hour + 60 * d.minute + d.second - offset) * 1000000

-- What is shown once everything that is out of range is carried over.
def normalize (d : DateTime) : DateTime :=
  toLocal 0 (d.instant 0)

structure Valid (d : DateTime) : Prop where
  date : d.date.Valid
  hour : d.hour < 24
  minute : d.minute < 60
  second : d.second < 60

theorem valid_toLocal (offset instant : Int) : (toLocal offset instant).Valid := by
  constructor
  case date => exact Date.valid_ofDays _
  all_goals
    simp only [toLocal]
    omega

theorem instant_toLocal (offset t : Int) :
    (toLocal offset t).instant offset = t / 1000000 * 1000000 := by
  simp only [toLocal, instant, Date.toDays_ofDays]
  omega

-- Numbers are padded with zeros.
def pad (width n : Nat) : List Char :=
  (Nat.toDigits 10 n).leftpad width '0'

-- The pattern `yyyy-MM-dd kk:mm:ss`: There is no offset, and `kk` shows the hour before 01:00 as 24.
def format (d : DateTime) : String :=
  .ofList <| (if d.date.year < 0 then ['-'] else []) ++ pad 4 d.date.year.natAbs ++
    ('-' :: pad 2 d.date.month) ++ ('-' :: pad 2 d.date.day) ++
    (' ' :: pad 2 (if d.hour = 0 then 24 else d.hour)) ++
    (':' :: pad 2 d.minute) ++ (':' :: pad 2 d.second)

-- The pattern `dd/MM/yyyy HH:mm`.
def formatToMinute (d : DateTime) : String :=
  .ofList <| pad 2 d.date.day ++ ('/' :: pad 2 d.date.month) ++
    ('/' :: (if d.date.year < 0 then ['-'] else []) ++ pad 4 d.date.year.natAbs) ++
    (' ' :: pad 2 d.hour) ++ (':' :: pad 2 d.minute)

def monthNames : List String := [
  "January", "February", "March", "April", "May", "June", "July", "August", "September", "October",
  "November", "December"
]

-- The pattern `d MMMM y HH:mm`.
def formatWithMonthName (d : DateTime) : String :=
  toString d.date.day ++ " " ++ monthNames.getD (d.date.month - 1) "" ++ " " ++
    toString d.date.year ++ " " ++ .ofList (pad 2 d.hour ++ ':' :: pad 2 d.minute)

def ofSign : List Char → Int × List Char
  | '-' :: cs => (-1, cs)
  | '+' :: cs => (1, cs)
  | cs        => (1, cs)

-- Of the forms that can be parsed, this is the one without an offset and with all six parts. Months
-- that are out of range are carried over, and so is all that `instant` carries over.
def parse (s : String) : Option DateTime :=
  let (sign, cs) := ofSign s.toList
  let year := cs.takeWhile Char.isDigit
  match cs.dropWhile Char.isDigit with
  | ['-', m₁, m₂, '-', d₁, d₂, sep, h₁, h₂, ':', i₁, i₂, ':', s₁, s₂] =>
    if 4 ≤ year.length ∧ (sep = ' ' ∨ sep = 'T') ∧
        [m₁, m₂, d₁, d₂, h₁, h₂, i₁, i₂, s₁, s₂].all Char.isDigit then
      let month : Int := Nat.ofDigitChars 10 [m₁, m₂] 0 - 1
      some {
        date.year  := sign * Nat.ofDigitChars 10 year 0 + month / 12
        date.month := (month % 12).toNat + 1
        date.day   := Nat.ofDigitChars 10 [d₁, d₂] 0
        hour       := Nat.ofDigitChars 10 [h₁, h₂] 0
        minute     := Nat.ofDigitChars 10 [i₁, i₂] 0
        second     := Nat.ofDigitChars 10 [s₁, s₂] 0
      }
    else none
  | _ => none

section

variable {w n : Nat}

theorem ofDigitChars_pad : Nat.ofDigitChars 10 (pad w n) 0 = n := by
  simp [pad, List.leftpad, Nat.ofDigitChars_append]

theorem isDigit_of_mem_pad (h : c ∈ pad w n) : c.isDigit := by
  simp only [pad, List.leftpad, List.mem_append, List.mem_replicate] at h
  rcases h with ⟨_, rfl⟩ | h
  · rfl
  · exact Nat.isDigit_of_mem_toDigits (by decide) (by decide) h

theorem length_pad : (pad w n).length = max w (Nat.toDigits 10 n).length := by
  simp only [pad, List.leftpad, List.length_append, List.length_replicate]
  omega

theorem pad_two (h : n < 100) : ∃ a b, pad 2 n = [a, b] ∧ a.isDigit ∧ b.isDigit ∧
    Nat.ofDigitChars 10 [a, b] 0 = n := by
  have hl : (pad 2 n).length = 2 := by
    have := Nat.length_toDigits_le_iff (b := 10) (n := n) (k := 2) (by decide) (by decide)
    rw [length_pad]
    omega
  obtain ⟨a, b, he⟩ := List.length_eq_two.mp hl
  have hd := fun c => isDigit_of_mem_pad (c := c) (w := 2) (n := n)
  rw [he] at hd
  exact ⟨a, b, he, hd a (by simp), hd b (by simp), he ▸ ofDigitChars_pad⟩

theorem ofSign_of_isDigit {cs : List Char} (h : ∀ c ∈ cs, c.isDigit) (hn : cs ≠ [])
    (rest : List Char) : ofSign (cs ++ rest) = (1, cs ++ rest) := by
  obtain _ | ⟨c, cs⟩ := cs
  case nil => exact absurd rfl hn
  case cons =>
    have hc := h c (by simp)
    simp only [List.cons_append, ofSign]
    split
    case h_1 he =>
      rw [(List.cons.inj he).left] at hc
      exact absurd hc (by decide)
    case h_2 he =>
      rw [(List.cons.inj he).left] at hc
      exact absurd hc (by decide)
    case h_3 => rfl

end

-- What is parsed is what was printed, but for the hour.
theorem parse_format {d : DateTime} (h : d.Valid) :
    parse d.format = some { d with hour := if d.hour = 0 then 24 else d.hour } := by
  have hm := h.date.month_le
  have hp := h.date.month_pos
  have hd := h.date.day_le_31
  have hh := h.hour
  have hi := h.minute
  have hs := h.second
  obtain ⟨m₁, m₂, hm, hm₁, hm₂, hm'⟩ := pad_two (n := d.date.month) (by omega)
  obtain ⟨d₁, d₂, hd, hd₁, hd₂, hd'⟩ := pad_two (n := d.date.day) (by omega)
  obtain ⟨h₁, h₂, hh, hh₁, hh₂, hh'⟩ := pad_two (n := if d.hour = 0 then 24 else d.hour) (by grind)
  obtain ⟨i₁, i₂, hi, hi₁, hi₂, hi'⟩ := pad_two (n := d.minute) (by omega)
  obtain ⟨s₁, s₂, hs, hs₁, hs₂, hs'⟩ := pad_two (n := d.second) (by omega)
  let rest := ['-', m₁, m₂, '-', d₁, d₂, ' ', h₁, h₂, ':', i₁, i₂, ':', s₁, s₂]
  have hf : d.format.toList =
      (if d.date.year < 0 then ['-'] else []) ++ (pad 4 d.date.year.natAbs ++ rest) := by
    simp [format, hm, hd, hh, hi, hs, rest]
  have hy : ∀ c ∈ pad 4 d.date.year.natAbs, c.isDigit := fun _ => isDigit_of_mem_pad
  have hl : 4 ≤ (pad 4 d.date.year.natAbs).length := length_pad ▸ Nat.le_max_left ..
  have ho : ofSign d.format.toList =
      (if d.date.year < 0 then -1 else 1, pad 4 d.date.year.natAbs ++ rest) := by
    rw [hf]
    split
    case isTrue  => rfl
    case isFalse => exact ofSign_of_isDigit hy (by grind) rest
  have ht : (pad 4 d.date.year.natAbs ++ rest).takeWhile Char.isDigit = pad 4 d.date.year.natAbs := by
    rw [List.takeWhile_append_of_pos hy]
    simp [rest]
  have hr : (pad 4 d.date.year.natAbs ++ rest).dropWhile Char.isDigit = rest := by
    rw [List.dropWhile_append_of_pos hy]
    simp [rest]
  simp only [parse, ho, ht, hr]
  simp only [rest, hl, ofDigitChars_pad, hm', hd', hh', hi', hs', hm₁, hm₂, hd₁, hd₂, hh₁, hh₂,
    hi₁, hi₂, hs₁, hs₂, List.all_cons, List.all_nil, Bool.and_self, true_or, and_self, if_true]
  have hc : ((d.date.month : Int) - 1) / 12 = 0 ∧ (((d.date.month : Int) - 1) % 12).toNat + 1 =
    d.date.month := by omega
  have hn : (if d.date.year < 0 then -1 else 1) * (d.date.year.natAbs : Int) = d.date.year := by
    split <;> omega
  simp only [hc, hn, Int.add_zero]

end DateTime
end Calendar
