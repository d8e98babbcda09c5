import Mathlib.Data.List.Lex
import Mathlib.Data.String.Basic

/-!
# UTC times and their ISO texts

A `UtcTime` is a calendar date with a time of day, to the microsecond. Times are ordered by their
fields, the most significant one first.

* `isoformat` writes a time with fields of fixed width, and leaves the microseconds out when there
  are none; `fromisoformat` reads such a text back (`fromisoformat_isoformat`).
* `isoformat_lt_isoformat`: the texts are in the order of the times, so that a store that only
  compares texts compares times.
-/

/-! ### Numerals of a fixed width -/

namespace Numeral

/-- The last `width` decimal digits of a number. -/
def digits : (width n : ℕ) → List Char
  | 0, _ => []
  | width + 1, n => Nat.digitChar (n / 10 ^ width % 10) :: digits width (n % 10 ^ width)

/-- The value of a decimal digit. -/
def digitValue (c : Char) : Option ℕ :=
  if c.isDigit then some (c.toNat - '0'.toNat) else none

/-- Reads `width` decimal digits, and returns what follows them. -/
def readDigits : (width : ℕ) → List Char → Option (ℕ × List Char)
  | 0, text => some (0, text)
  | _ + 1, [] => none
  | width + 1, c :: text => do
    let d ← digitValue c
    let (n, rest) ← readDigits width text
    return (d * 10 ^ width + n, rest)

@[simp] theorem length_digits (width n : ℕ) : (digits width n).length = width := by
  induction width generalizing n with
  | zero => rfl
  | succ width ih => rw [digits, List.length_cons, ih]

private theorem digitChar_lt_digitChar :
    ∀ m < 10, ∀ n < 10, Nat.digitChar m < Nat.digitChar n ↔ m < n := by decide

private theorem digitChar_inj :
    ∀ m < 10, ∀ n < 10, Nat.digitChar m = Nat.digitChar n ↔ m = n := by decide

private theorem digitValue_digitChar : ∀ n < 10, digitValue (Nat.digitChar n) = some n := by
  decide

/-- The leading digit of a number of `width + 1` digits, and the rest. -/
private theorem leadingDigit {width n : ℕ} (h : n < 10 ^ (width + 1)) :
    n / 10 ^ width % 10 = n / 10 ^ width ∧ n / 10 ^ width < 10 := by
  have hlt : n / 10 ^ width < 10 := by
    rw [Nat.div_lt_iff_lt_mul (Nat.pow_pos (by omega))]
    rwa [Nat.pow_succ, Nat.mul_comm] at h
  exact ⟨Nat.mod_eq_of_lt hlt, hlt⟩

/-- **Numerals of one width are ordered as their numbers.** -/
theorem digits_lt_digits {width m n : ℕ} (hm : m < 10 ^ width) (hn : n < 10 ^ width) :
    digits width m < digits width n ↔ m < n := by
  induction width generalizing m n with
  | zero =>
    have hm' : m = 0 := by simpa using hm
    have hn' : n = 0 := by simpa using hn
    rw [hm', hn']
    exact ⟨fun h => absurd h (lt_irrefl _), fun h => absurd h (lt_irrefl _)⟩
  | succ width ih =>
    have hpos : 0 < 10 ^ width := Nat.pow_pos (by omega)
    obtain ⟨hm₁, hm₂⟩ := leadingDigit hm
    obtain ⟨hn₁, hn₂⟩ := leadingDigit hn
    rw [digits, digits, List.cons_lt_cons_iff, hm₁, hn₁, digitChar_lt_digitChar _ hm₂ _ hn₂,
      digitChar_inj _ hm₂ _ hn₂, ih (Nat.mod_lt _ hpos) (Nat.mod_lt _ hpos)]
    -- A number is its leading digit followed by the rest.
    have hm₃ := Nat.div_add_mod m (10 ^ width)
    have hn₃ := Nat.div_add_mod n (10 ^ width)
    constructor
    · rintro (hlt | ⟨heq, hlt⟩)
      · exact lt_of_not_ge fun hge => absurd (Nat.div_le_div_right hge) (Nat.not_le.mpr hlt)
      · rw [heq] at hm₃
        omega
    · intro hlt
      rcases Nat.lt_or_ge (m / 10 ^ width) (n / 10 ^ width) with h | h
      · exact Or.inl h
      · have heq : m / 10 ^ width = n / 10 ^ width :=
          le_antisymm (Nat.div_le_div_right (le_of_lt hlt)) h
        refine Or.inr ⟨heq, ?_⟩
        rw [heq] at hm₃
        omega

theorem digits_inj {width m n : ℕ} (hm : m < 10 ^ width) (hn : n < 10 ^ width) :
    digits width m = digits width n ↔ m = n := by
  refine ⟨fun h => le_antisymm ?_ ?_, fun h => congrArg _ h⟩
  · exact not_lt.mp fun hlt => absurd ((digits_lt_digits hn hm).mpr hlt) (h ▸ lt_irrefl _)
  · exact not_lt.mp fun hlt => absurd ((digits_lt_digits hm hn).mpr hlt) (h ▸ lt_irrefl _)

/-- A numeral is read back. -/
theorem readDigits_digits {width n : ℕ} (h : n < 10 ^ width) (rest : List Char) :
    readDigits width (digits width n ++ rest) = some (n, rest) := by
  induction width generalizing n with
  | zero =>
    have hn : n = 0 := by simpa using h
    rw [hn]
    rfl
  | succ width ih =>
    obtain ⟨h₁, h₂⟩ := leadingDigit h
    have hrest : n % 10 ^ width < 10 ^ width := Nat.mod_lt _ (Nat.pow_pos (by omega))
    rw [digits, List.cons_append, readDigits, h₁, digitValue_digitChar _ h₂]
    simp only [Option.bind_eq_bind, Option.bind_some, ih hrest, Nat.div_add_mod']
    rfl

end Numeral

/-- Texts that start with parts of one length are compared part by part. -/
theorem List.append_lt_append_iff {α : Type*} [LinearOrder α] {a b : List α}
    (h : a.length = b.length) (x y : List α) : a ++ x < b ++ y ↔ a < b ∨ a = b ∧ x < y := by
  induction a generalizing b with
  | nil =>
    obtain rfl : b = [] := List.length_eq_zero_iff.mp h.symm
    simp only [List.nil_append, lt_irrefl, true_and, false_or]
  | cons c a ih =>
    obtain ⟨d, b, rfl⟩ : ∃ d b', b = d :: b' := List.exists_cons_of_length_eq_add_one h.symm
    rw [List.cons_append, List.cons_append, List.cons_lt_cons_iff, List.cons_lt_cons_iff,
      ih (by simpa using h), List.cons.injEq]
    constructor
    · rintro (hlt | ⟨rfl, hlt | ⟨rfl, hlt⟩⟩)
      · exact Or.inl (Or.inl hlt)
      · exact Or.inl (Or.inr ⟨rfl, hlt⟩)
      · exact Or.inr ⟨⟨rfl, rfl⟩, hlt⟩
    · rintro ((hlt | ⟨rfl, hlt⟩) | ⟨⟨rfl, rfl⟩, hlt⟩)
      · exact Or.inl hlt
      · exact Or.inr ⟨rfl, Or.inl hlt⟩
      · exact Or.inr ⟨rfl, Or.inr ⟨rfl, hlt⟩⟩

/-! ### Times -/

/-- The number of days of a month. -/
def daysInMonth (year month : ℕ) : ℕ :=
  if month = 2 then
    if year % 4 = 0 ∧ (year % 100 ≠ 0 ∨ year % 400 = 0) then 29 else 28
  else if month ∈ [4, 6, 9, 11] then 30 else 31

/-- The fields of a date with a time of day are within their ranges. -/
def validTime (year month day hour minute second microsecond : ℕ) : Prop :=
  (1 ≤ year ∧ year ≤ 9999) ∧ (1 ≤ month ∧ month ≤ 12) ∧
    (1 ≤ day ∧ day ≤ daysInMonth year month) ∧ hour < 24 ∧ minute < 60 ∧ second < 60 ∧
    microsecond < 1000000

instance (year month day hour minute second microsecond : ℕ) :
    Decidable (validTime year month day hour minute second microsecond) :=
  inferInstanceAs (Decidable (_ ∧ _))

/-- A point in time, in UTC. -/
@[ext] structure UtcTime where
  year : ℕ
  month : ℕ
  day : ℕ
  hour : ℕ := 0
  minute : ℕ := 0
  second : ℕ := 0
  microsecond : ℕ := 0
  valid : validTime year month day hour minute second microsecond := by decide
  deriving DecidableEq, Repr

namespace UtcTime

/-- The fields of a time, the most significant one first. -/
def fields (t : UtcTime) : List ℕ :=
  [t.year, t.month, t.day, t.hour, t.minute, t.second, t.microsecond]

theorem fields_injective : Function.Injective fields := by
  intro s t h
  simp only [fields, List.cons.injEq, and_true] at h
  obtain ⟨h₁, h₂, h₃, h₄, h₅, h₆, h₇⟩ := h
  exact UtcTime.ext h₁ h₂ h₃ h₄ h₅ h₆ h₇

instance : LinearOrder UtcTime := LinearOrder.lift' fields fields_injective

theorem lt_iff_fields {s t : UtcTime} : s < t ↔ s.fields < t.fields := Iff.rfl

theorem day_lt (t : UtcTime) : t.day < 10 ^ 2 := by
  have h := t.valid.2.2.1.2
  unfold daysInMonth at h
  split_ifs at h <;> omega

/-- The text of the microseconds and the offset. -/
def fraction (microsecond : ℕ) : List Char :=
  if microsecond = 0 then ['+', '0', '0', ':', '0', '0']
  else '.' :: (Numeral.digits 6 microsecond ++ ['+', '0', '0', ':', '0', '0'])

/-- `t.isoformat()` -/
def isoformat (t : UtcTime) : String :=
  String.ofList (Numeral.digits 4 t.year ++ '-' :: (Numeral.digits 2 t.month ++ '-' ::
    (Numeral.digits 2 t.day ++ 'T' :: (Numeral.digits 2 t.hour ++ ':' ::
    (Numeral.digits 2 t.minute ++ ':' :: (Numeral.digits 2 t.second ++ fraction t.microsecond))))))

/-- Reads the text of the microseconds and the offset. -/
def readFraction : List Char → Option ℕ
  | ['+', '0', '0', ':', '0', '0'] => some 0
  | '.' :: text => do
    let (microsecond, rest) ← Numeral.readDigits 6 text
    guard (rest = ['+', '0', '0', ':', '0', '0'])
    return microsecond
  | _ => none

/-- Reads a numeral and the separator behind it. -/
def readField (width : ℕ) (separator : Char) (text : List Char) : Option (ℕ × List Char) := do
  let (n, rest) ← Numeral.readDigits width text
  match rest with
  | c :: rest => if c = separator then some (n, rest) else none
  | [] => none

/-- `datetime.fromisoformat(text)`, for the texts `isoformat` writes. -/
def fromisoformat (text : String) : Option UtcTime := do
  let (year, text) ← readField 4 '-' text.toList
  let (month, text) ← readField 2 '-' text
  let (day, text) ← readField 2 'T' text
  let (hour, text) ← readField 2 ':' text
  let (minute, text) ← readField 2 ':' text
  let (second, text) ← Numeral.readDigits 2 text
  let microsecond ← readFraction text
  if h : validTime year month day hour minute second microsecond then
    some ⟨year, month, day, hour, minute, second, microsecond, h⟩
  else none

/-- A time without microseconds is written before the same second with some. -/
theorem fraction_lt_fraction {m n : ℕ} (hm : m < 10 ^ 6) (hn : n < 10 ^ 6) :
    fraction m < fraction n ↔ m < n := by
  have hplus : ('+' : Char) < '.' := by decide
  unfold fraction
  by_cases hm₀ : m = 0
  · by_cases hn₀ : n = 0
    · rw [if_pos hm₀, if_pos hn₀, hm₀, hn₀]
      exact ⟨fun h => absurd h (lt_irrefl _), fun h => absurd h (lt_irrefl _)⟩
    · rw [if_pos hm₀, if_neg hn₀, List.cons_lt_cons_iff]
      exact ⟨fun _ => by omega, fun _ => Or.inl hplus⟩
  · by_cases hn₀ : n = 0
    · rw [if_neg hm₀, if_pos hn₀, List.cons_lt_cons_iff]
      refine ⟨?_, fun h => by omega⟩
      rintro (h | ⟨h, -⟩)
      · exact absurd h (lt_asymm hplus)
      · exact absurd h (by decide)
    · rw [if_neg hm₀, if_neg hn₀, List.cons_lt_cons_iff,
        List.append_lt_append_iff (by rw [Numeral.length_digits, Numeral.length_digits]),
        Numeral.digits_lt_digits hm hn]
      simp only [lt_irrefl, and_false, or_false, true_and, false_or]

/-- Two texts that start with a numeral and a separator. -/
private theorem field_lt_field {width m n : ℕ} (hm : m < 10 ^ width) (hn : n < 10 ^ width)
    (separator : Char) (x y : List Char) :
    Numeral.digits width m ++ separator :: x < Numeral.digits width n ++ separator :: y ↔
      m < n ∨ m = n ∧ x < y := by
  rw [List.append_lt_append_iff (by rw [Numeral.length_digits, Numeral.length_digits]),
    Numeral.digits_lt_digits hm hn, Numeral.digits_inj hm hn, List.cons_lt_cons_iff]
  simp only [lt_irrefl, false_or, true_and]

/-- **The texts are in the order of the times.** -/
theorem isoformat_lt_isoformat {s t : UtcTime} : s.isoformat < t.isoformat ↔ s < t := by
  obtain ⟨hy, hmo, -, hh, hmi, hs, hus⟩ := s.valid
  obtain ⟨hy', hmo', -, hh', hmi', hs', hus'⟩ := t.valid
  rw [String.lt_iff_toList_lt, isoformat, isoformat, String.toList_ofList, String.toList_ofList,
    field_lt_field (by omega) (by omega), field_lt_field (by omega) (by omega),
    field_lt_field s.day_lt t.day_lt, field_lt_field (by omega) (by omega),
    field_lt_field (by omega) (by omega),
    List.append_lt_append_iff (by rw [Numeral.length_digits, Numeral.length_digits]),
    Numeral.digits_lt_digits (by omega) (by omega), Numeral.digits_inj (by omega) (by omega),
    fraction_lt_fraction (by omega) (by omega), lt_iff_fields]
  simp only [fields, List.cons_lt_cons_iff, lt_irrefl, and_false, or_false]

theorem isoformat_le_isoformat {s t : UtcTime} : s.isoformat ≤ t.isoformat ↔ s ≤ t := by
  rw [← not_lt, ← not_lt, isoformat_lt_isoformat]

@[simp] theorem isoformat_inj {s t : UtcTime} : s.isoformat = t.isoformat ↔ s = t := by
  rw [le_antisymm_iff, isoformat_le_isoformat, isoformat_le_isoformat, ← le_antisymm_iff]

private theorem readFraction_fraction {n : ℕ} (h : n < 10 ^ 6) :
    readFraction (fraction n) = some n := by
  unfold fraction
  by_cases hn : n = 0
  · rw [if_pos hn, hn]
    rfl
  · rw [if_neg hn, readFraction, Numeral.readDigits_digits h]
    rfl

private theorem readField_digits {width n : ℕ} (h : n < 10 ^ width) (separator : Char)
    (rest : List Char) :
    readField width separator (Numeral.digits width n ++ separator :: rest) = some (n, rest) := by
  rw [readField, Numeral.readDigits_digits h]
  simp only [Option.bind_eq_bind, Option.bind_some, if_pos]

/-- **A written time is read back.** -/
@[simp] theorem fromisoformat_isoformat (t : UtcTime) : fromisoformat t.isoformat = some t := by
  obtain ⟨hy, hmo, -, hh, hmi, hs, hus⟩ := t.valid
  have hyear : t.year < 10 ^ 4 := by omega
  have hmonth : t.month < 10 ^ 2 := by omega
  have hhour : t.hour < 10 ^ 2 := by omega
  have hminute : t.minute < 10 ^ 2 := by omega
  have hsecond : t.second < 10 ^ 2 := by omega
  rw [fromisoformat, isoformat, String.toList_ofList]
  simp only [readField_digits hyear, readField_digits hmonth, readField_digits t.day_lt,
    readField_digits hhour, readField_digits hminute, Numeral.readDigits_digits hsecond,
    readFraction_fraction hus, Option.bind_eq_bind, Option.bind_some]
  exact dif_pos t.valid

end UtcTime

example : UtcTime.isoformat { year := 2024, month := 2, day := 29, microsecond := 7 } =
    "2024-02-29T00:00:00.000007+00:00" := by decide +kernel
