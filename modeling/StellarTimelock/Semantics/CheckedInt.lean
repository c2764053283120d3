import Mathlib.Data.FinEnum

/-! Fixed-width integers whose additions report overflow. Unsigned 64-bit
words are Lean's own; the signed 128-bit type carries its range as fields. -/

namespace UInt64

/-- Addition that returns nothing when the exact sum does not fit. -/
def checkedAdd (a b : UInt64) : Option UInt64 :=
  if a.toNat + b.toNat < UInt64.size then some (a + b) else none

theorem checkedAdd_eq_some {a b c : UInt64} :
    checkedAdd a b = some c ↔ c.toNat = a.toNat + b.toNat := by
  have hc := c.toNat_lt
  unfold checkedAdd
  split_ifs with h
  · have hAdd : (a + b).toNat = a.toNat + b.toNat := by
      rw [UInt64.toNat_add, Nat.mod_eq_of_lt h]
    rw [Option.some.injEq, ← UInt64.toNat_inj, hAdd]
    exact eq_comm
  · simp only [false_iff]
    simp only [UInt64.size] at h
    omega

end UInt64

/-- A signed 128-bit integer. -/
structure I128 where
  val : Int
  lower : -2 ^ 127 ≤ val
  upper : val < 2 ^ 127
  deriving DecidableEq, Repr

namespace I128

instance : Zero I128 := ⟨⟨0, by decide, by decide⟩⟩

instance : LE I128 := ⟨fun a b => a.val ≤ b.val⟩

instance : LT I128 := ⟨fun a b => a.val < b.val⟩

instance (a b : I128) : Decidable (a ≤ b) := inferInstanceAs (Decidable (a.val ≤ b.val))

instance (a b : I128) : Decidable (a < b) := inferInstanceAs (Decidable (a.val < b.val))

@[simp] theorem val_zero : (0 : I128).val = 0 := rfl

/-- The order of the checked integers is that of the integers they stand for,
which is how every comparison of the contract is turned into one that `omega`
decides. -/
theorem le_def {a b : I128} : a ≤ b ↔ a.val ≤ b.val := Iff.rfl

@[ext] theorem ext {a b : I128} (h : a.val = b.val) : a = b := by
  cases a
  cases b
  simp_all

/-- Addition that returns nothing when the exact sum leaves the range. -/
def checkedAdd (a b : I128) : Option I128 :=
  if h : -2 ^ 127 ≤ a.val + b.val ∧ a.val + b.val < 2 ^ 127 then
    some ⟨a.val + b.val, h.1, h.2⟩
  else none

theorem checkedAdd_eq_some {a b c : I128} :
    checkedAdd a b = some c ↔ c.val = a.val + b.val := by
  have hLower := c.lower
  have hUpper := c.upper
  unfold checkedAdd
  split_ifs with h
  · rw [Option.some.injEq, I128.ext_iff]
    exact eq_comm
  · simp only [false_iff]
    omega

end I128
