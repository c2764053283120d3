import Mathlib.Algebra.Order.BigOperators.Group.List
import Mathlib.Algebra.Order.Ring.Pow
import Mathlib.Data.Int.Log
import Mathlib.Data.Rat.Floor
import Mathlib.Tactic.FieldSimp
import Mathlib.Tactic.Linarith
import Mathlib.Tactic.NormNum
import Mathlib.Tactic.Positivity
import Mathlib.Tactic.Ring

/-! Binary floating point over the rationals: rounding to nearest with ties to
even, programs that can be run with any rounding, and a calculus of relative
errors for sums of rounded numbers. -/
namespace FloatingPoint

/-- A binary format: the bits of a significand and the exponent of the smallest
positive number. It has no largest number. -/
structure Format where
  precision : Nat
  minExponent : Int
  precision_pos : 0 < precision

/-- The numbers of IEEE 754 double precision, but for the infinite ones. -/
def binary64 : Format := ⟨53, -1074, by decide⟩

/-- The nearest integer, the even one of two. -/
def nearestEven (x : Rat) : Int :=
  if x - ⌊x⌋ < 1 / 2 then ⌊x⌋
  else if 1 / 2 < x - ⌊x⌋ then ⌊x⌋ + 1
  else if ⌊x⌋ % 2 = 0 then ⌊x⌋ else ⌊x⌋ + 1

namespace Format

variable (f : Format)

/-- The exponent of the unit in the last place. -/
def ulpExponent (x : Rat) : Int := max (Int.log 2 |x| - (f.precision - 1)) f.minExponent

def ulp (x : Rat) : Rat := (2 : Rat) ^ f.ulpExponent x

/-- The number of the format nearest to `x`. -/
def round (x : Rat) : Rat := nearestEven (x / f.ulp x) * f.ulp x

/-- The relative error of one rounding. -/
def unit : Rat := 1 / (2 : Rat) ^ f.precision

/-- From here on the error of a rounding is relative. -/
def smallestNormal : Rat := (2 : Rat) ^ (f.minExponent + (f.precision - 1))

end Format

theorem nearestEven_intCast (n : Int) : nearestEven n = n := by
  unfold nearestEven
  simp

/-- Rounding to an integer moves a number by a half at most. -/
theorem abs_nearestEven_sub_le (x : Rat) : |(nearestEven x : Rat) - x| ≤ 1 / 2 := by
  have hLow : (⌊x⌋ : Rat) ≤ x := Int.floor_le x
  have hHigh : x < ⌊x⌋ + 1 := Int.lt_floor_add_one x
  unfold nearestEven
  rw [abs_le]
  split_ifs with hBelow hAbove hEven
  · constructor <;> linarith
  · push_cast
    constructor <;> linarith
  · constructor <;> linarith
  · push_cast
    constructor <;> linarith

section Rounding

variable (f : Format)

/-- The spacing of the format is positive everywhere, also among the subnormal
numbers. -/
theorem ulp_pos (x : Rat) : 0 < f.ulp x := zpow_pos (by norm_num) _

/-- A rounding errs by half a unit in the last place at most. -/
theorem abs_round_sub_le (x : Rat) : |f.round x - x| ≤ f.ulp x / 2 := by
  have hPos := ulp_pos f x
  have hScaled : f.round x - x = (nearestEven (x / f.ulp x) - x / f.ulp x) * f.ulp x := by
    unfold Format.round
    rw [sub_mul, div_mul_cancel₀ x hPos.ne']
  rw [hScaled, abs_mul, abs_of_pos hPos]
  calc |(nearestEven (x / f.ulp x) : Rat) - x / f.ulp x| * f.ulp x
      ≤ 1 / 2 * f.ulp x := mul_le_mul_of_nonneg_right (abs_nearestEven_sub_le _) hPos.le
    _ = f.ulp x / 2 := by ring

theorem round_zero : f.round 0 = 0 := by
  unfold Format.round
  rw [zero_div]
  have hZero : nearestEven (0 : Rat) = 0 := nearestEven_intCast 0
  rw [hZero, Int.cast_zero, zero_mul]

end Rounding

/-- An arithmetic is a choice of what becomes of the exact result of an operation.
A program that is written once over this class has one meaning for each of them. -/
class Arithmetic where
  round : Rat → Rat
  round_zero : round 0 = 0

namespace Arithmetic

/-- The arithmetic in which nothing is lost. -/
@[reducible] def exact : Arithmetic := ⟨id, rfl⟩

/-- The arithmetic of a format, in which every result is rounded once. -/
@[reducible] def ofFormat (f : Format) : Arithmetic := ⟨f.round, FloatingPoint.round_zero f⟩

/-- Double precision, for results that stay below the infinite numbers. -/
@[reducible] def double : Arithmetic := ofFormat binary64

variable [Arithmetic]

def ofInt (n : Int) : Rat := round n

def add (a b : Rat) : Rat := round (a + b)

def mul (a b : Rat) : Rat := round (a * b)

def div (a b : Rat) : Rat := round (a / b)

/-- The numbers are added up from the left, as a loop does it. -/
def sumFrom (start : Rat) (xs : List Rat) : Rat := xs.foldl add start

end Arithmetic

section Errors

variable (f : Format)

theorem unit_pos : 0 < f.unit := by
  unfold Format.unit
  positivity

/-- The unit roundoff is a half at most, as every format has one digit at least.
-/
theorem unit_le_half : f.unit ≤ 1 / 2 := by
  unfold Format.unit
  have hPow : (2 : Rat) ^ 1 ≤ (2 : Rat) ^ f.precision :=
    pow_le_pow_right₀ (by norm_num) f.precision_pos
  exact one_div_le_one_div_of_le (by norm_num) (by simpa using hPow)

/-- Outside the subnormal numbers the unit in the last place is relative. -/
theorem ulp_le {x : Rat} (hNormal : f.smallestNormal ≤ |x|) : f.ulp x / 2 ≤ f.unit * |x| := by
  have hPos : 0 < |x| := lt_of_lt_of_le (zpow_pos (by norm_num) _) hNormal
  have hLog : (2 : Rat) ^ Int.log 2 |x| ≤ |x| := Int.zpow_log_le_self (by norm_num) hPos
  have hExponent : f.ulpExponent x = Int.log 2 |x| - (f.precision - 1) := by
    have hAtLeast : f.minExponent + (f.precision - 1) ≤ Int.log 2 |x| :=
      (Int.zpow_le_iff_le_log (by norm_num) hPos).mp hNormal
    unfold Format.ulpExponent
    exact max_eq_left (by omega)
  have hUlp : f.ulp x / 2 = f.unit * (2 : Rat) ^ Int.log 2 |x| := by
    unfold Format.ulp Format.unit
    rw [hExponent, zpow_sub₀ (by norm_num), zpow_sub₀ (by norm_num), zpow_one, zpow_natCast]
    field_simp
  rw [hUlp]
  exact mul_le_mul_of_nonneg_left hLog (unit_pos f).le

/-- The relative error of one rounding, outside the range of the subnormal
numbers, is at most the unit roundoff. All bounds on amounts are built on this
one. -/
theorem abs_round_sub_le_unit {x : Rat} (hNormal : x = 0 ∨ f.smallestNormal ≤ |x|) :
    |f.round x - x| ≤ f.unit * |x| := by
  rcases hNormal with hZero | hNormal
  · rw [hZero, round_zero, sub_self, abs_zero, mul_zero]
  · exact (abs_round_sub_le f x).trans (ulp_le f hNormal)

end Errors

/-- `a` has come from `x` by `k` roundings, as far as its error goes. -/
structure Within (f : Format) (k : Nat) (a x : Rat) : Prop where
  nonneg : 0 ≤ x
  error : |a - x| ≤ x * ((1 + f.unit) ^ k - 1)

section Within

variable {f : Format} {k l : Nat} {a b x y : Rat}

theorem one_le_growth (f : Format) (k : Nat) : 1 ≤ (1 + f.unit) ^ k :=
  one_le_pow₀ (by linarith [unit_pos f])

/-- A number that was not rounded stands for itself after no roundings. -/
theorem Within.exact (hNonneg : 0 ≤ x) : Within f 0 x x := by
  refine ⟨hNonneg, ?_⟩
  simp

theorem Within.mono (h : Within f k a x) (hLe : k ≤ l) : Within f l a x := by
  have hGrowth : (1 + f.unit) ^ k ≤ (1 + f.unit) ^ l :=
    pow_le_pow_right₀ (by linarith [unit_pos f]) hLe
  exact ⟨h.nonneg, h.error.trans (mul_le_mul_of_nonneg_left (by linarith) h.nonneg)⟩

/-- A sum stands for the sum of the numbers that its parts stand for, before it
is rounded itself; there is no cancellation, as both are not negative. -/
theorem Within.add (hLeft : Within f k a x) (hRight : Within f k b y) :
    Within f k (a + b) (x + y) := by
  refine ⟨add_nonneg hLeft.nonneg hRight.nonneg, ?_⟩
  calc |a + b - (x + y)| = |(a - x) + (b - y)| := by ring_nf
    _ ≤ |a - x| + |b - y| := abs_add_le _ _
    _ ≤ x * ((1 + f.unit) ^ k - 1) + y * ((1 + f.unit) ^ k - 1) := add_le_add hLeft.error hRight.error
    _ = (x + y) * ((1 + f.unit) ^ k - 1) := by ring

/-- Scaling by a number that is not negative keeps the number of roundings. -/
theorem Within.scale (h : Within f k a x) {c : Rat} (hNonneg : 0 ≤ c) :
    Within f k (a * c) (x * c) := by
  refine ⟨mul_nonneg h.nonneg hNonneg, ?_⟩
  rw [← sub_mul, abs_mul, abs_of_nonneg hNonneg]
  calc |a - x| * c ≤ x * ((1 + f.unit) ^ k - 1) * c := mul_le_mul_of_nonneg_right h.error hNonneg
    _ = x * c * ((1 + f.unit) ^ k - 1) := by ring

/-- Nothing but zero stands for zero, after any number of roundings. -/
theorem Within.zero (h : Within f k a 0) : a = 0 := by
  have hError := h.error
  rw [zero_mul, sub_zero] at hError
  exact abs_nonpos_iff.mp hError

theorem Within.abs_le (h : Within f k a x) : |a| ≤ x * (1 + f.unit) ^ k := by
  calc |a| = |(a - x) + x| := by ring_nf
    _ ≤ |a - x| + |x| := abs_add_le _ _
    _ ≤ x * ((1 + f.unit) ^ k - 1) + x := by
        rw [abs_of_nonneg h.nonneg]
        linarith [h.error]
    _ = x * (1 + f.unit) ^ k := by ring

/-- Rounding what is within `k` roundings of a number puts it within `k + 1`,
unless it is so small that doubles are no longer spaced in proportion to it. -/
theorem Within.round (h : Within f k a x) (hNormal : a = 0 ∨ f.smallestNormal ≤ |a|) :
    Within f (k + 1) (f.round a) x := by
  refine ⟨h.nonneg, ?_⟩
  have hUnit := unit_pos f
  calc |f.round a - x| = |(f.round a - a) + (a - x)| := by ring_nf
    _ ≤ |f.round a - a| + |a - x| := abs_add_le _ _
    _ ≤ f.unit * (x * (1 + f.unit) ^ k) + x * ((1 + f.unit) ^ k - 1) := by
        have hRound := abs_round_sub_le_unit f hNormal
        have hSize := mul_le_mul_of_nonneg_left h.abs_le hUnit.le
        linarith [h.error]
    _ = x * ((1 + f.unit) ^ (k + 1) - 1) := by ring

/-- The growth of the error over few roundings is linear. -/
theorem growth_le (hFew : k * f.unit ≤ 1 / 2) : (1 + f.unit) ^ k - 1 ≤ 2 * (k * f.unit) := by
  have hUnit := unit_pos f
  have hHalf := unit_le_half f
  have hShrink : 1 - k * f.unit ≤ (1 - f.unit) ^ k := by
    have hBernoulli := one_add_mul_le_pow (a := -f.unit) (by linarith) k
    calc 1 - k * f.unit = 1 + k * -f.unit := by ring
      _ ≤ (1 + -f.unit) ^ k := hBernoulli
      _ = (1 - f.unit) ^ k := by rw [← sub_eq_add_neg]
  have hProduct : (1 + f.unit) ^ k * (1 - f.unit) ^ k ≤ 1 := by
    rw [← mul_pow]
    refine pow_le_one₀ ?_ ?_
    · nlinarith
    · nlinarith
  have hGrowth := one_le_growth f k
  have hBound : (1 + f.unit) ^ k * (1 - k * f.unit) ≤ 1 :=
    (mul_le_mul_of_nonneg_left hShrink (by linarith)).trans hProduct
  have hCount : 0 ≤ k * f.unit := by positivity
  nlinarith

/-- After few roundings the error is linear in their number: twice the number of
roundings times the unit roundoff, relative to the number itself. -/
theorem Within.abs_sub_le (h : Within f k a x) (hFew : k * f.unit ≤ 1 / 2) :
    |a - x| ≤ x * (2 * (k * f.unit)) :=
  h.error.trans (mul_le_mul_of_nonneg_left (growth_le hFew) h.nonneg)

/-- What is close to a number that is not tiny is not tiny. -/
theorem Within.normal (h : Within f k a x) (hFew : k * f.unit ≤ 1 / 4)
    (hSize : x = 0 ∨ 2 * f.smallestNormal ≤ x) : a = 0 ∨ f.smallestNormal ≤ |a| := by
  rcases hSize with hZero | hSize
  · subst hZero
    exact Or.inl h.zero
  · right
    have hError := h.abs_sub_le (by linarith)
    have hHalf : x * (2 * (k * f.unit)) ≤ x / 2 := by nlinarith [h.nonneg]
    have hLow : x - a ≤ x / 2 := by
      have hAbs := neg_abs_le (a - x)
      linarith
    calc f.smallestNormal ≤ x / 2 := by linarith
      _ ≤ a := by linarith
      _ ≤ |a| := le_abs_self a

/-- A loop that adds up rounded numbers: every addition counts as one more
rounding. -/
theorem Within.sum {as xs : List Rat} (h : List.Forall₂ (Within f k) as xs)
    (hSize : ∀ x ∈ xs, x = 0 ∨ 2 * f.smallestNormal ≤ x) {n : Nat} (hMore : k ≤ n)
    (hStart : Within f n a x) (hStartSize : x = 0 ∨ 2 * f.smallestNormal ≤ x)
    (hFew : (n + as.length : Nat) * f.unit ≤ 1 / 4) :
    Within f (n + as.length) (as.foldl (fun total b => f.round (total + b)) a) (x + xs.sum) := by
  induction h generalizing a x n with
  | nil => simpa using hStart
  | @cons b y as xs hHead _ ih =>
      have hCount : n + (b :: as).length = n + 1 + as.length := by
        rw [List.length_cons]
        omega
      have hSum : Within f n (a + b) (x + y) := hStart.add (hHead.mono hMore)
      have hSumSize : x + y = 0 ∨ 2 * f.smallestNormal ≤ x + y := by
        rcases hStartSize with hZero | hLarge
        · rw [hZero, zero_add]
          exact hSize y List.mem_cons_self
        · exact Or.inr (by linarith [hHead.nonneg])
      have hEarlier : n * f.unit ≤ 1 / 4 := by
        refine (mul_le_mul_of_nonneg_right ?_ (unit_pos f).le).trans hFew
        exact_mod_cast Nat.le_add_right n _
      rw [hCount] at hFew
      rw [List.foldl_cons, List.sum_cons, ← add_assoc x, hCount]
      exact ih (fun z hz => hSize z (List.mem_cons_of_mem y hz)) (Nat.le_succ_of_le hMore)
        (hSum.round (hSum.normal hEarlier hSumSize)) hSumSize hFew

end Within

end FloatingPoint
