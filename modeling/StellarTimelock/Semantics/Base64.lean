import Mathlib.Algebra.Ring.Nat
import Mathlib.Data.List.TakeWhile

/-! Base64 over UTF-16 code units, with a decoder that rejects nothing: it stops
at the first padding character and reads every other one outside the alphabet
as zero. -/
namespace Base64

/-- A JavaScript string. -/
abbrev JsString := List UInt16

/-- `=`. -/
def paddingChar : UInt16 := 61

def digit (v : Nat) : UInt16 :=
  UInt16.ofNat (if v < 26 then v + 65 else if v < 52 then v + 71 else if v < 62 then v - 4
    else if v = 62 then 43 else 47)

/-- The place of a character in the alphabet. -/
def value (unit : UInt16) : Nat :=
  let n := unit.toNat
  if 65 ≤ n ∧ n ≤ 90 then n - 65
  else if 97 ≤ n ∧ n ≤ 122 then n - 71
  else if 48 ≤ n ∧ n ≤ 57 then n + 4
  else if n = 43 then 62
  else if n = 47 then 63
  else 0

/-- Three bytes as four groups of six bits, and what the last bytes need. -/
def sextets : List UInt8 → List Nat
  | a :: b :: c :: rest =>
      a.toNat / 4 :: (a.toNat % 4 * 16 + b.toNat / 16) :: (b.toNat % 16 * 4 + c.toNat / 64) ::
        c.toNat % 64 :: sextets rest
  | [a, b] => [a.toNat / 4, a.toNat % 4 * 16 + b.toNat / 16, b.toNat % 16 * 4]
  | [a] => [a.toNat / 4, a.toNat % 4 * 16]
  | [] => []

def stringify (bytes : List UInt8) : JsString :=
  let digits := (sextets bytes).map digit
  digits ++ List.replicate ((4 - digits.length % 4) % 4) paddingChar

/-- Every group but the first of four completes a byte with the one before it. -/
def parseLoop : (i previous : Nat) → List Nat → List UInt8
  | _, _, [] => []
  | i, previous, v :: rest =>
      if i % 4 = 0 then parseLoop (i + 1) v rest
      else
        UInt8.ofNat (previous * 4 ^ (i % 4) + v / 4 ^ (3 - i % 4)) :: parseLoop (i + 1) v rest

def parse (text : JsString) : List UInt8 :=
  parseLoop 0 0 ((text.takeWhile (· ≠ paddingChar)).map value)

theorem sextets_lt (bytes : List UInt8) : ∀ v ∈ sextets bytes, v < 64 := by
  fun_induction sextets bytes with
  | case1 a b c rest ih =>
      have ha := a.toNat_lt
      have hb := b.toNat_lt
      have hc := c.toNat_lt
      intro v hv
      simp only [List.mem_cons] at hv
      rcases hv with rfl | rfl | rfl | rfl | hv
      · omega
      · omega
      · omega
      · omega
      · exact ih v hv
  | case2 a b =>
      have ha := a.toNat_lt
      have hb := b.toNat_lt
      intro v hv
      simp only [List.mem_cons, List.not_mem_nil, or_false] at hv
      omega
  | case3 a =>
      have ha := a.toNat_lt
      intro v hv
      simp only [List.mem_cons, List.not_mem_nil, or_false] at hv
      omega
  | case4 => exact fun v hv => absurd hv List.not_mem_nil

/-- Every digit has its value back, so that the alphabet has no digit twice. -/
theorem value_digit : ∀ v < 64, value (digit v) = v := by decide

theorem digit_ne_padding : ∀ v < 64, digit v ≠ paddingChar := by decide

/-- Four groups are read like the first four. -/
theorem parseLoop_four (i previous : Nat) (hi : i % 4 = 0) (v₀ v₁ v₂ v₃ : Nat) (rest : List Nat) :
    parseLoop i previous (v₀ :: v₁ :: v₂ :: v₃ :: rest) =
      UInt8.ofNat (v₀ * 4 + v₁ / 16) :: UInt8.ofNat (v₁ * 16 + v₂ / 4) ::
        UInt8.ofNat (v₂ * 64 + v₃) :: parseLoop (i + 4) v₃ rest := by
  have h₁ : (i + 1) % 4 = 1 := by omega
  have h₂ : (i + 1 + 1) % 4 = 2 := by omega
  have h₃ : (i + 1 + 1 + 1) % 4 = 3 := by omega
  simp [parseLoop, hi, h₁, h₂, h₃]

theorem ofNat_eq {byte : UInt8} {n : Nat} (h : n % 256 = byte.toNat) : UInt8.ofNat n = byte := by
  apply UInt8.toNat_inj.mp
  rw [UInt8.toNat_ofNat']
  exact h

/-- The parser's loop, started at a whole group, reads back the bytes that the
digits were made of, three at a time. -/
theorem parseLoop_sextets (bytes : List UInt8) (i previous : Nat) (hi : i % 4 = 0) :
    parseLoop i previous (sextets bytes) = bytes := by
  fun_induction sextets bytes generalizing i previous with
  | case1 a b c rest ih =>
      have ha := a.toNat_lt
      have hb := b.toNat_lt
      have hc := c.toNat_lt
      rw [parseLoop_four i previous hi, ih (i + 4) _ (by omega)]
      congr 1
      · exact ofNat_eq (by omega)
      · congr 1
        · exact ofNat_eq (by omega)
        · congr 1
          exact ofNat_eq (by omega)
  | case2 a b =>
      have ha := a.toNat_lt
      have hb := b.toNat_lt
      have h₁ : (i + 1) % 4 = 1 := by omega
      have h₂ : (i + 1 + 1) % 4 = 2 := by omega
      have hPairs : parseLoop i previous [a.toNat / 4, a.toNat % 4 * 16 + b.toNat / 16,
          b.toNat % 16 * 4] = [UInt8.ofNat (a.toNat / 4 * 4 + (a.toNat % 4 * 16 + b.toNat / 16) / 16),
            UInt8.ofNat ((a.toNat % 4 * 16 + b.toNat / 16) * 16 + b.toNat % 16 * 4 / 4)] := by
        simp [parseLoop, hi, h₁, h₂]
      rw [hPairs]
      congr 1
      · exact ofNat_eq (by omega)
      · congr 1
        exact ofNat_eq (by omega)
  | case3 a =>
      have ha := a.toNat_lt
      have h₁ : (i + 1) % 4 = 1 := by omega
      have hPair : parseLoop i previous [a.toNat / 4, a.toNat % 4 * 16] =
          [UInt8.ofNat (a.toNat / 4 * 4 + a.toNat % 4 * 16 / 16)] := by
        simp [parseLoop, hi, h₁]
      rw [hPair]
      congr 1
      exact ofNat_eq (by omega)
  | case4 => rfl

/-- What was written is read back. -/
theorem parse_stringify (bytes : List UInt8) : parse (stringify bytes) = bytes := by
  have hDigits : ∀ unit ∈ (sextets bytes).map digit, decide (unit ≠ paddingChar) = true := by
    intro unit hUnit
    obtain ⟨v, hv, rfl⟩ := List.mem_map.mp hUnit
    exact decide_eq_true (digit_ne_padding v (sextets_lt bytes v hv))
  have hValues : ((sextets bytes).map digit).map value = sextets bytes := by
    rw [List.map_map]
    exact (List.map_congr_left fun v hv => value_digit v (sextets_lt bytes v hv)).trans
      (List.map_id _)
  unfold parse stringify
  rw [List.takeWhile_append_of_pos hDigits, List.takeWhile_replicate]
  simp only [ne_eq, not_true_eq_false, decide_false, Bool.false_eq_true, if_false, List.append_nil]
  rw [hValues, parseLoop_sextets bytes 0 0 rfl]

/-- Three bytes make four digits, and a rest of one or two bytes two or three.
-/
theorem sextets_length (bytes : List UInt8) :
    (sextets bytes).length = (4 * bytes.length + 2) / 3 := by
  fun_induction sextets bytes with
  | case1 a b c rest ih =>
      simp only [List.length_cons, ih]
      omega
  | case2 a b => simp
  | case3 a => simp
  | case4 => rfl

/-- Every three bytes, or what is left of them, take four characters. -/
theorem stringify_length (bytes : List UInt8) :
    (stringify bytes).length = (bytes.length + 2) / 3 * 4 := by
  unfold stringify
  rw [List.length_append, List.length_replicate, List.length_map, sextets_length]
  omega

/-- The characters of the alphabet and the padding. -/
theorem forall_mem_stringify {good : UInt16 → Prop} (hPadding : good paddingChar)
    (hDigit : ∀ v < 64, good (digit v)) (bytes : List UInt8) :
    ∀ unit ∈ stringify bytes, good unit := by
  intro unit h
  rcases List.mem_append.mp h with hDigits | hTail
  · obtain ⟨v, hv, rfl⟩ := List.mem_map.mp hDigits
    exact hDigit v (sextets_lt bytes v hv)
  · rw [List.eq_of_mem_replicate hTail]
    exact hPadding

/-- A delimiter outside the alphabet does not occur. -/
theorem not_mem_stringify {unit : UInt16} (hPadding : unit ≠ paddingChar)
    (hDigit : ∀ v < 64, digit v ≠ unit) (bytes : List UInt8) : unit ∉ stringify bytes := by
  have hOther : ∀ other ∈ stringify bytes, other ≠ unit :=
    forall_mem_stringify (fun h => hPadding h.symm) hDigit bytes
  exact fun h => hOther unit h rfl

end Base64
