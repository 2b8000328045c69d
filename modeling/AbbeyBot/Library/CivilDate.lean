import Mathlib
import AbbeyBot.Library.Text

/-! # Civil dates

A date is the number of days since 1970-01-01, in the proleptic Gregorian calendar. `format` writes
it as `%Y-%m-%d` (four digits for the years 0 to 9999, a sign and at least four digits otherwise),
`parse` reads that format back as leniently as the date library does: blanks before a number, one
or two digits for month and day, any number of digits after a sign. -/

namespace AbbeyBot.Library.CivilDate

open AbbeyBot.Library.Text

/-! ### Years -/

/-- The first day of the year `y`. -/
def yearStart (y : ℤ) : ℤ := 365 * (y - 1) + (y - 1) / 4 - (y - 1) / 100 + (y - 1) / 400 - 719162

/-- The year of the day `d`: whole periods of 400, 100, 4 and 1 years since the year 1. -/
def yearOf (d : ℤ) : ℤ :=
  let n := d + 719162
  let n400 := n % 146097
  let c := min (n400 / 36524) 3
  let n100 := n400 - 36524 * c
  400 * (n / 146097) + 100 * c + 4 * (n100 / 1461) + min (n100 % 1461 / 365) 3 + 1

/-- Whether February has 29 days in the year `y`. -/
def isLeap (y : ℤ) : Bool := y % 4 == 0 && (y % 100 != 0 || y % 400 == 0)

theorem yearStart_periods {a c e f : ℤ} (hc : 0 ≤ c ∧ c ≤ 3) (he : 0 ≤ e ∧ e ≤ 24)
    (hf : 0 ≤ f ∧ f ≤ 3) :
    yearStart (400 * a + 100 * c + 4 * e + f + 1) =
      146097 * a + 36524 * c + 1461 * e + 365 * f - 719162 := by
  unfold yearStart; omega

theorem yearStart_succ (y : ℤ) :
    yearStart (y + 1) = yearStart y + 365 + if isLeap y then 1 else 0 := by
  unfold yearStart isLeap
  simp only [bne_iff_ne, Bool.and_eq_true, Bool.or_eq_true, beq_iff_eq]
  split_ifs <;> omega

/-- A day lies in its year. -/
theorem yearOf_spec (d : ℤ) : yearStart (yearOf d) ≤ d ∧ d < yearStart (yearOf d + 1) := by
  rw [yearStart_succ]
  unfold yearOf
  obtain ⟨n, hn⟩ : ∃ n, d = n - 719162 := ⟨d + 719162, by omega⟩
  subst hn
  simp only [sub_add_cancel]
  generalize ha : n / 146097 = a
  generalize hr : n % 146097 = r
  generalize hcdef : min (r / 36524) 3 = c
  generalize he : (r - 36524 * c) / 1461 = e
  generalize hq : (r - 36524 * c) % 1461 = q
  generalize hfdef : min (q / 365) 3 = f
  have hc : 0 ≤ c ∧ c ≤ 3 := by omega
  have hf : 0 ≤ f ∧ f ≤ 3 := by omega
  have he' : 0 ≤ e ∧ e ≤ 24 := by omega
  rw [yearStart_periods hc he' hf]
  unfold isLeap
  simp only [bne_iff_ne, Bool.and_eq_true, Bool.or_eq_true, beq_iff_eq]
  split_ifs <;> omega

/-! ### Months -/

/-- The lengths of the months. -/
def monthLengths (leap : Bool) : List ℕ :=
  [31, if leap then 29 else 28, 31, 30, 31, 30, 31, 31, 30, 31, 30, 31]

/-- Month (counted from `m`) and day of the month of the `d`-th day (counted from 0). -/
def monthDay : List ℕ → ℕ → ℕ → ℕ × ℕ
  | [], m, d => (m, d + 1)
  | l :: ls, m, d => if d < l then (m, d + 1) else monthDay ls (m + 1) (d - l)

theorem monthDay_spec (ls : List ℕ) (m d : ℕ) (hd : d < ls.sum) :
    ∃ i, ∃ hi : i < ls.length, (monthDay ls m d).1 = m + i ∧ 1 ≤ (monthDay ls m d).2 ∧
      (monthDay ls m d).2 ≤ ls[i] ∧ (ls.take i).sum + (monthDay ls m d).2 = d + 1 := by
  induction ls generalizing m d with
  | nil => simp at hd
  | cons l ls ih =>
    unfold monthDay
    split_ifs with h
    · exact ⟨0, by simp, rfl, by simp, by simpa using h, by simp⟩
    · rw [List.sum_cons] at hd
      obtain ⟨i, hi, h1, h2, h3, h4⟩ := ih (m + 1) (d - l) (by omega)
      refine ⟨i + 1, by simpa using hi, by omega, h2, by simpa using h3, ?_⟩
      rw [List.take_succ_cons, List.sum_cons]
      omega

/-- Year, month and day of a date. -/
def civil (d : ℤ) : ℤ × ℕ × ℕ :=
  let y := yearOf d
  (y, monthDay (monthLengths (isLeap y)) 1 (d - yearStart y).toNat)

/-- The date of a year, month and day, if there is one between the first day of the year -262143
and the last day of the year 262142. -/
def fromYmd (y : ℤ) (m d : ℕ) : Option ℤ :=
  let lengths := monthLengths (isLeap y)
  if -262143 ≤ y ∧ y ≤ 262142 ∧ 1 ≤ m ∧ m ≤ 12 ∧ 1 ≤ d ∧ d ≤ lengths.getD (m - 1) 0 then
    some (yearStart y + ((lengths.take (m - 1)).sum + d - 1 : ℕ))
  else none

/-- The dates of the calendar. -/
def InRange (d : ℤ) : Prop := -262143 ≤ yearOf d ∧ yearOf d ≤ 262142

theorem length_monthLengths (leap : Bool) : (monthLengths leap).length = 12 := by
  cases leap <;> rfl

theorem sum_monthLengths (leap : Bool) : (monthLengths leap).sum = 365 + if leap then 1 else 0 := by
  cases leap <;> rfl

theorem monthLengths_le (leap : Bool) (i : ℕ) (hi : i < (monthLengths leap).length) :
    (monthLengths leap)[i] ≤ 31 := by
  have h : ∀ l ∈ monthLengths leap, l ≤ 31 := by cases leap <;> decide
  exact h _ (List.getElem_mem hi)

theorem civil_bounds (d : ℤ) : 1 ≤ (civil d).2.1 ∧ (civil d).2.1 ≤ 12 ∧ 1 ≤ (civil d).2.2 ∧
    (civil d).2.2 ≤ 31 := by
  obtain ⟨h1, h2⟩ := yearOf_spec d
  rw [yearStart_succ] at h2
  obtain ⟨i, hi, hm, hd1, hd2, -⟩ := monthDay_spec (monthLengths (isLeap (yearOf d))) 1
    (d - yearStart (yearOf d)).toNat (by rw [sum_monthLengths]; split_ifs at h2 ⊢ <;> omega)
  have hlen := length_monthLengths (isLeap (yearOf d))
  have hle := monthLengths_le _ i hi
  simp only [civil]
  omega

theorem fromYmd_of {y : ℤ} {i m d : ℕ} (hy : -262143 ≤ y ∧ y ≤ 262142)
    (hi : i < (monthLengths (isLeap y)).length) (hm : m = 1 + i)
    (hd : 1 ≤ d ∧ d ≤ (monthLengths (isLeap y))[i]) :
    fromYmd y m d = some (yearStart y + (((monthLengths (isLeap y)).take i).sum + d - 1 : ℕ)) := by
  subst hm
  have hlen := length_monthLengths (isLeap y)
  have hget : (monthLengths (isLeap y)).getD i 0 = (monthLengths (isLeap y))[i] :=
    List.getD_eq_getElem _ _ hi
  simp only [fromYmd, Nat.add_sub_cancel_left, hget]
  exact if_pos ⟨hy.1, hy.2, by omega, by omega, hd⟩

/-- A date is the date of its year, month and day. -/
theorem fromYmd_civil {d : ℤ} (hd : InRange d) :
    fromYmd (civil d).1 (civil d).2.1 (civil d).2.2 = some d := by
  obtain ⟨h1, h2⟩ := yearOf_spec d
  rw [yearStart_succ] at h2
  obtain ⟨i, hi, hm, hd1, hd2, hsum⟩ := monthDay_spec (monthLengths (isLeap (yearOf d))) 1
    (d - yearStart (yearOf d)).toNat (by rw [sum_monthLengths]; split_ifs at h2 ⊢ <;> omega)
  simp only [civil]
  rw [fromYmd_of hd hi hm ⟨hd1, hd2⟩]
  congr 1
  omega

/-! ### Weeks -/

/-- Days since Monday; 1970-01-01 was a Thursday. -/
def fromMonday (d : ℤ) : ℤ := (d + 3) % 7

/-- The Monday of the week of `d`. -/
def monday (d : ℤ) : ℤ := d - fromMonday d

theorem monday_mono {d d' : ℤ} (h : d ≤ d') : monday d ≤ monday d' := by
  unfold monday fromMonday; omega

theorem monday_le (d : ℤ) : monday d ≤ d ∧ d ≤ monday d + 6 := by
  unfold monday fromMonday; omega

instance (d : ℤ) : Decidable (InRange d) := inferInstanceAs (Decidable (_ ∧ _))

/-! ### Text -/

/-- `%Y`: four digits from the year 0 to the year 9999, a sign and at least four digits otherwise. -/
def yearText (y : ℤ) : List Char :=
  if 0 ≤ y ∧ y ≤ 9999 then padded 4 y.toNat
  else (if y < 0 then '-' else '+') :: padded 4 y.natAbs

/-- `%Y-%m-%d`. -/
def format (d : ℤ) : String :=
  String.ofList (yearText (civil d).1 ++ '-' :: (padded 2 (civil d).2.1 ++
    '-' :: padded 2 (civil d).2.2))

/-- A year: any number of digits after a sign, one to four without. -/
def readYear (s : List Char) : Option (ℤ × List Char) :=
  match s.dropWhile isWhitespace with
  | '-' :: rest => (number rest.length rest).map fun nr => (-(nr.1 : ℤ), nr.2)
  | '+' :: rest => (number rest.length rest).map fun nr => ((nr.1 : ℤ), nr.2)
  | rest => (number 4 rest).map fun nr => ((nr.1 : ℤ), nr.2)

/-- A month or a day. -/
def readPart (s : List Char) : Option (ℕ × List Char) := number 2 (s.dropWhile isWhitespace)

/-- The dash between two numbers. -/
def readDash : List Char → Option (List Char)
  | '-' :: rest => some rest
  | _ => none

/-- A date in the format `%Y-%m-%d`, as leniently as the date library reads it. -/
def parse (s : String) : Option ℤ := do
  let (y, s) ← readYear s.toList
  let s ← readDash s
  let (m, s) ← readPart s
  let s ← readDash s
  let (d, s) ← readPart s
  if s = [] then fromYmd y m d else none

theorem dropWhile_padded (w n : ℕ) (rest : List Char) :
    (padded w n ++ rest).dropWhile isWhitespace = padded w n ++ rest := by
  cases hp : padded w n with
  | nil => exact absurd hp (padded_ne_nil w n)
  | cons c cs =>
    have hc : c.isDigit = true := isDigit_of_mem_padded (hp ▸ List.mem_cons_self)
    simp [not_isWhitespace_of_isDigit hc]

theorem readPart_padded {n : ℕ} (hn : n < 100) (rest : List Char) :
    readPart (padded 2 n ++ rest) = some (n, rest) := by
  have hlen : (padded 2 n).length = 2 := length_padded (by omega) hn
  rw [readPart, dropWhile_padded]
  exact number_padded hlen.le (.inl hlen)

theorem readYear_yearText (y : ℤ) (rest : List Char) :
    readYear (yearText y ++ '-' :: rest) = some (y, '-' :: rest) := by
  have hrest : ∀ c ∈ ('-' :: rest).head?, c.isDigit = false := by simp
  unfold yearText
  split_ifs with hy hneg
  · have hlen : (padded 4 y.toNat).length = 4 := length_padded (by omega) (by omega)
    have hnum : number 4 (padded 4 y.toNat ++ '-' :: rest) = some (y.toNat, '-' :: rest) :=
      number_padded hlen.le (.inl hlen)
    have hcast : ((y.toNat : ℕ) : ℤ) = y := by omega
    rw [readYear, dropWhile_padded]
    split
    · rename_i heq
      have := isDigit_of_mem_padded (w := 4) (n := y.toNat) (c := '-')
        (List.mem_of_mem_head? (by
          cases hp : padded 4 y.toNat with
          | nil => exact absurd hp (padded_ne_nil _ _)
          | cons c cs => rw [hp] at heq; simpa using (List.cons.inj heq).1))
      simp at this
    · rename_i heq
      have := isDigit_of_mem_padded (w := 4) (n := y.toNat) (c := '+')
        (List.mem_of_mem_head? (by
          cases hp : padded 4 y.toNat with
          | nil => exact absurd hp (padded_ne_nil _ _)
          | cons c cs => rw [hp] at heq; simpa using (List.cons.inj heq).1))
      simp at this
    · rw [hnum, Option.map_some, hcast]
  · have hcast : -((y.natAbs : ℕ) : ℤ) = y := by omega
    simp only [List.cons_append, readYear]
    rw [List.dropWhile_cons_of_neg (by decide)]
    simp only
    rw [number_padded (by simp) (.inr hrest), Option.map_some, hcast]
  · have hcast : ((y.natAbs : ℕ) : ℤ) = y := by omega
    simp only [List.cons_append, readYear]
    rw [List.dropWhile_cons_of_neg (by decide)]
    simp only
    rw [number_padded (by simp) (.inr hrest), Option.map_some, hcast]

/-- **Round trip**: a date of the calendar is read back from its text. -/
theorem parse_format {d : ℤ} (hd : InRange d) : parse (format d) = some d := by
  obtain ⟨-, hm, -, hdd⟩ := civil_bounds d
  have hday := readPart_padded (n := (civil d).2.2) (by omega) []
  rw [List.append_nil] at hday
  simp only [parse, format, String.toList_ofList, readYear_yearText, Option.bind_eq_bind,
    Option.bind_some, readDash, readPart_padded (n := (civil d).2.1) (by omega), hday, if_true]
  exact fromYmd_civil hd

end AbbeyBot.Library.CivilDate
