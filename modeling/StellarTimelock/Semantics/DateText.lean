import StellarTimelock.Semantics.Calendar
import Mathlib.Algebra.Ring.Nat
import Mathlib.Data.List.Basic

/-! Dates as text: decimal digits with leading zeros, ISO times as ECMAScript
writes them, and the search for a date in a text. -/
namespace Calendar

/-- The last `width` decimal digits of a number, with leading zeros. -/
def padded : Nat → Nat → List Char
  | 0, _ => []
  | width + 1, n => padded width (n / 10) ++ [Nat.digitChar (n % 10)]

/-- The number a text of decimal digits denotes. -/
def digitsValue (cs : List Char) : Nat := Nat.ofDigitChars 10 cs 0

theorem isDigit_digitChar : ∀ n < 10, (Nat.digitChar n).isDigit = true := by decide

/-- A padded number has exactly its width, cutting off what does not fit. -/
@[simp] theorem padded_length (width n : Nat) : (padded width n).length = width := by
  induction width generalizing n with
  | zero => rfl
  | succ width ih => simp [padded, ih]

theorem isDigit_of_mem_padded {width n : Nat} {c : Char} (h : c ∈ padded width n) :
    c.isDigit = true := by
  induction width generalizing n with
  | zero => cases h
  | succ width ih =>
      rcases List.mem_append.mp h with hInit | hLast
      · exact ih hInit
      · rw [List.mem_singleton.mp hLast]
        exact isDigit_digitChar (n % 10) (Nat.mod_lt n (by decide))

/-- A number that fits its width is read back from its padded digits. -/
theorem digitsValue_padded {width n : Nat} (h : n < 10 ^ width) :
    digitsValue (padded width n) = n := by
  induction width generalizing n with
  | zero =>
      have hn : n = 0 := by omega
      rw [hn]
      rfl
  | succ width ih =>
      have hInit : n / 10 < 10 ^ width := by
        apply Nat.div_lt_of_lt_mul
        rw [Nat.mul_comm, ← Nat.pow_succ]
        exact h
      have hLast : n % 10 < 10 := Nat.mod_lt n (by decide)
      have hInitValue := ih hInit
      unfold digitsValue at hInitValue ⊢
      rw [padded, Nat.ofDigitChars_append, hInitValue,
        Nat.ofDigitChars_cons_digitChar_of_lt_ten hLast, Nat.ofDigitChars_nil]
      omega

/-- The furthest time from 1970 a date can have, in milliseconds. -/
def maxTime : Int := 8640000000000000

def msPerDay : Int := 86400000

/-- Years outside four digits are written with a sign and six digits. -/
def isoYear (y : Int) : List Char :=
  if 0 ≤ y ∧ y ≤ 9999 then padded 4 y.toNat
  else (if y < 0 then '-' else '+') :: padded 6 y.natAbs

/-- The date part of an ISO time. -/
def isoDate (t : Date) : List Char :=
  isoYear t.year ++ ('-' :: padded 2 t.month ++ '-' :: padded 2 t.day)

/-- `Date.prototype.toISOString`; there is no text for a time out of range. -/
def toISOString (ms : Int) : Option (List Char) :=
  if ms < -maxTime ∨ maxTime < ms then none
  else
    let r := (ms % msPerDay).toNat
    some (isoDate (Date.ofDay (ms / msPerDay)) ++ ('T' :: padded 2 (r / 3600000) ++
      ':' :: padded 2 (r / 60000 % 60) ++ ':' :: padded 2 (r / 1000 % 60) ++
      '.' :: padded 3 (r % 1000) ++ ['Z']))

/-- The groups of `(\d{4})-(\d{2})-(\d{2})` matched at the head of a text. -/
def dateAt : List Char → Option (List Char × List Char × List Char)
  | a :: b :: c :: d :: s :: e :: f :: t :: g :: h :: _ =>
      if [a, b, c, d, e, f, g, h].all Char.isDigit = true ∧ s = '-' ∧ t = '-' then
        some ([a, b, c, d], [e, f], [g, h])
      else none
  | _ => none

/-- The groups of the leftmost match in a text. -/
def firstDate : List Char → Option (List Char × List Char × List Char)
  | [] => none
  | c :: cs => (dateAt (c :: cs)).orElse fun _ => firstDate cs

/-- `Date.parse` of the start of a date, given the digits of its parts. -/
def parseMidnight (y m d : List Char) : Option Int :=
  let t : Date := ⟨digitsValue y, digitsValue m, digitsValue d⟩
  if t.Valid then some (t.toDay * msPerDay) else none

/-- The date part of an ISO text has ten characters at least, and more for the
years that are written with a sign and six digits. -/
theorem isoDate_length (t : Date) : 10 ≤ (isoDate t).length := by
  unfold isoDate isoYear
  split_ifs <;> simp

/-- No date begins where there is no digit. -/
theorem dateAt_of_head {c : Char} (h : c.isDigit = false) (cs : List Char) :
    dateAt (c :: cs) = none := by
  unfold dateAt
  split
  · next heq =>
      cases heq
      simp [h]
  · rfl

theorem dateAt_of_length {cs : List Char} (h : cs.length < 10) : dateAt cs = none := by
  unfold dateAt
  split
  · simp only [List.length_cons] at h
    omega
  · rfl

theorem firstDate_of_length {cs : List Char} (h : cs.length < 10) : firstDate cs = none := by
  induction cs with
  | nil => rfl
  | cons c cs ih =>
      rw [firstDate, dateAt_of_length h, Option.orElse_none]
      exact ih (Nat.lt_of_succ_lt h)

/-- A prefix without digits is passed over. -/
theorem firstDate_append {start : List Char} (h : ∀ c ∈ start, c.isDigit = false)
    (cs : List Char) : firstDate (start ++ cs) = firstDate cs := by
  induction start with
  | nil => rfl
  | cons c start ih =>
      rw [List.cons_append, firstDate, dateAt_of_head (h c List.mem_cons_self), Option.orElse_none]
      exact ih (fun d hd => h d (List.mem_cons_of_mem c hd))

/-- In a text of ten characters only the whole can be a date. -/
theorem firstDate_of_length_eq {cs : List Char} (h : cs.length = 10) :
    firstDate cs = dateAt cs := by
  cases cs with
  | nil => cases h
  | cons c cs =>
      have hRest : cs.length < 10 := by
        rw [List.length_cons] at h
        omega
      rw [firstDate, firstDate_of_length hRest]
      cases dateAt (c :: cs) <;> rfl

/-- Four, two and two digits separated by hyphens are a date, which is how the
day in a note is found. -/
theorem dateAt_digits {y m d : List Char} (hy : y.length = 4) (hm : m.length = 2)
    (hd : d.length = 2) (hDigits : ∀ c ∈ y ++ m ++ d, c.isDigit = true) :
    dateAt (y ++ ('-' :: m ++ '-' :: d)) = some (y, m, d) := by
  obtain ⟨a, y, rfl⟩ := List.exists_cons_of_length_eq_add_one hy
  obtain ⟨b, c, e, rfl⟩ := List.length_eq_three.mp (Nat.succ_inj.mp hy)
  obtain ⟨f, g, rfl⟩ := List.length_eq_two.mp hm
  obtain ⟨h, i, rfl⟩ := List.length_eq_two.mp hd
  simp only [List.cons_append, List.nil_append, dateAt, List.all_cons, List.all_nil]
  simp [hDigits]

/-- The date cut from an ISO time is found again exactly when its year is
written with four digits. -/
theorem firstDate_take_isoDate (t : Date) {start : List Char} (rest : List Char)
    (h : ∀ c ∈ start, c.isDigit = false) :
    firstDate (start ++ (isoDate t ++ rest).take 10) =
      if 0 ≤ t.year ∧ t.year ≤ 9999 then
        some (padded 4 t.year.toNat, padded 2 t.month, padded 2 t.day)
      else none := by
  rw [firstDate_append h]
  unfold isoDate isoYear
  split_ifs with hYear hNegative
  · have hCut : (padded 4 t.year.toNat ++ ('-' :: padded 2 t.month ++ '-' :: padded 2 t.day) ++
        rest).take 10 = padded 4 t.year.toNat ++ ('-' :: padded 2 t.month ++ '-' :: padded 2 t.day) :=
      List.take_left' (by simp)
    rw [hCut, firstDate_of_length_eq (by simp)]
    apply dateAt_digits (padded_length _ _) (padded_length _ _) (padded_length _ _)
    intro c hc
    rcases List.mem_append.mp hc with hc | hc
    · rcases List.mem_append.mp hc with hc | hc
      · exact isDigit_of_mem_padded hc
      · exact isDigit_of_mem_padded hc
    · exact isDigit_of_mem_padded hc
  · rw [firstDate_of_length_eq (by simp; omega)]
    exact dateAt_of_head rfl _
  · rw [firstDate_of_length_eq (by simp; omega)]
    exact dateAt_of_head rfl _

/-- The parts of a valid date are read back as its start. -/
theorem parseMidnight_padded {t : Date} (hValid : t.Valid) (hFrom : 0 ≤ t.year)
    (hTo : t.year ≤ 9999) (hDay : t.day ≤ 31) :
    parseMidnight (padded 4 t.year.toNat) (padded 2 t.month) (padded 2 t.day) =
      some (t.toDay * msPerDay) := by
  have hMonth : t.month ≤ 12 := hValid.2.1
  unfold parseMidnight
  rw [digitsValue_padded (by omega), digitsValue_padded (by omega), digitsValue_padded (by omega),
    Int.toNat_of_nonneg hFrom]
  exact if_pos hValid

end Calendar
