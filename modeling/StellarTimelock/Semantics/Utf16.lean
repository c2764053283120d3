import Mathlib.Data.Option.Basic
import Mathlib.Data.List.Basic

/-! UTF-16: the code units of a text, and decoding that accepts nothing else. -/
namespace Utf16

/-- The first unit of a pair. -/
def High (unit : UInt16) : Prop := 0xd800 ≤ unit.toNat ∧ unit.toNat ≤ 0xdbff

/-- The second unit of a pair. -/
def Low (unit : UInt16) : Prop := 0xdc00 ≤ unit.toNat ∧ unit.toNat ≤ 0xdfff

instance (unit : UInt16) : Decidable (High unit) := inferInstanceAs (Decidable (_ ∧ _))

instance (unit : UInt16) : Decidable (Low unit) := inferInstanceAs (Decidable (_ ∧ _))

/-- The code point of a pair. -/
def codePoint (high low : UInt16) : Nat :=
  0x10000 + (high.toNat - 0xd800) * 0x400 + (low.toNat - 0xdc00)

def encodeChar (c : Char) : List UInt16 :=
  if c.toNat < 0x10000 then [UInt16.ofNat c.toNat]
  else
    [UInt16.ofNat (0xd800 + (c.toNat - 0x10000) / 0x400),
      UInt16.ofNat (0xdc00 + (c.toNat - 0x10000) % 0x400)]

def encode (text : List Char) : List UInt16 := text.flatMap encodeChar

/-- The text of the units, unless some unit of a pair stands alone. -/
def decode : List UInt16 → Option (List Char)
  | [] => some []
  | unit :: rest =>
      if High unit then
        match rest with
        | [] => none
        | low :: rest =>
            if Low low then (decode rest).map (Char.ofNat (codePoint unit low) :: ·) else none
      else if Low unit then none
      else (decode rest).map (Char.ofNat unit.toNat :: ·)

def WellFormed (units : List UInt16) : Prop := ∃ text, encode text = units

/-- The two forms of a character. -/
inductive Encodes (c : Char) : List UInt16 → Prop where
  | unit (unit : UInt16) (hHigh : ¬ High unit) (hLow : ¬ Low unit)
      (hPoint : unit.toNat = c.toNat) : Encodes c [unit]
  | pair (high low : UInt16) (hHigh : High high) (hLow : Low low)
      (hPoint : codePoint high low = c.toNat) : Encodes c [high, low]

theorem toNat_lt (c : Char) : c.toNat < 0xd800 ∨ 0xdfff < c.toNat ∧ c.toNat < 0x110000 := c.valid

/-- The encoder keeps to the form: one unit for a character of the basic plane,
a pair of surrogates that stand for it otherwise. -/
theorem encodeChar_encodes (c : Char) : Encodes c (encodeChar c) := by
  have hValid := toNat_lt c
  generalize hPoint : c.toNat = n at hValid
  rw [encodeChar, hPoint]
  split
  · next hUnit =>
      have hValue : (UInt16.ofNat n).toNat = n := by
        rw [UInt16.toNat_ofNat']
        omega
      refine .unit _ ?_ ?_ (hValue.trans hPoint.symm)
      · rw [High, hValue]
        omega
      · rw [Low, hValue]
        omega
  · next hPair =>
      have hHigh : (UInt16.ofNat (0xd800 + (n - 0x10000) / 0x400)).toNat =
          0xd800 + (n - 0x10000) / 0x400 := by
        rw [UInt16.toNat_ofNat']
        omega
      have hLow : (UInt16.ofNat (0xdc00 + (n - 0x10000) % 0x400)).toNat =
          0xdc00 + (n - 0x10000) % 0x400 := by
        rw [UInt16.toNat_ofNat']
        omega
      refine .pair _ _ ?_ ?_ ?_
      · rw [High, hHigh]
        omega
      · rw [Low, hLow]
        omega
      · rw [hPoint]
        unfold codePoint
        rw [hHigh, hLow]
        omega

/-- A unit that is not of a pair is a character. -/
theorem decode_unit {unit : UInt16} (hHigh : ¬ High unit) (hLow : ¬ Low unit)
    (rest : List UInt16) :
    decode (unit :: rest) = (decode rest).map (Char.ofNat unit.toNat :: ·) := by
  cases rest <;> simp [decode, hHigh, hLow]

/-- A high surrogate followed by a low one is read as the one character that the
two stand for. -/
theorem decode_pair {high low : UInt16} (hHigh : High high) (hLow : Low low)
    (rest : List UInt16) :
    decode (high :: low :: rest) = (decode rest).map (Char.ofNat (codePoint high low) :: ·) := by
  simp [decode, hHigh, hLow]

/-- What was encoded is read back as one character, whatever follows it, as no
character's units begin those of another. -/
theorem decode_encodeChar_append (c : Char) (rest : List UInt16) :
    decode (encodeChar c ++ rest) = (decode rest).map (c :: ·) := by
  have hForm := encodeChar_encodes c
  generalize encodeChar c = units at hForm
  cases hForm with
  | unit unit hHigh hLow hPoint =>
      rw [List.singleton_append, decode_unit hHigh hLow, hPoint, Char.ofNat_toNat]
  | pair high low hHigh hLow hPoint =>
      rw [List.cons_append, List.singleton_append, decode_pair hHigh hLow, hPoint,
        Char.ofNat_toNat]

@[simp] theorem encode_cons (c : Char) (text : List Char) :
    encode (c :: text) = encodeChar c ++ encode text := List.flatMap_cons

/-- Encoding a text and decoding it strictly gives the text back. -/
theorem decode_encode (text : List Char) : decode (encode text) = some text := by
  induction text with
  | nil => rfl
  | cons c text ih => simp [decode_encodeChar_append, ih]

end Utf16
