import Mathlib.Data.List.Basic

/-! Extract-and-expand key derivation over any keyed hash of fixed length: the
output is the beginning of one stream of blocks, each made from the one before. -/
namespace KeyExpansion

universe u

variable {Byte : Type u} {hashLen : Nat}
variable (hmac : (key message : List Byte) → Vector Byte hashLen) (octet : Nat → Byte)

def extract (salt ikm : List Byte) : List Byte := (hmac salt ikm).toList

/-- `T(i)`; `T(0)` is empty. -/
def block (prk info : List Byte) : Nat → List Byte
  | 0 => []
  | i + 1 => (hmac prk (block prk info i ++ info ++ [octet (i + 1)])).toList

/-- `T(1) || T(2) || ... || T(n)`. -/
def blocks (prk info : List Byte) (n : Nat) : List Byte :=
  (List.range n).flatMap fun i => block hmac octet prk info (i + 1)

/-- The first bytes of as many blocks as they need. The counter of a block is one
octet, so there are no more than 255. -/
def expand (prk info : List Byte) (length : Nat) : Option (List Byte) :=
  if length ≤ 255 * hashLen then
    some ((blocks hmac octet prk info ((length + hashLen - 1) / hashLen)).take length)
  else none

def derive (salt ikm info : List Byte) (length : Nat) : Option (List Byte) :=
  expand hmac octet (extract hmac salt ikm) info length

variable {hmac} {octet} {prk info : List Byte}

@[simp] theorem blocks_zero : blocks hmac octet prk info 0 = [] := rfl

/-- One more block is appended to those before, so a shorter expansion is the
beginning of a longer one. -/
theorem blocks_succ (n : Nat) :
    blocks hmac octet prk info (n + 1) =
      blocks hmac octet prk info n ++ block hmac octet prk info (n + 1) := by
  simp [blocks, List.range_succ]

@[simp] theorem block_length (i : Nat) :
    (block hmac octet prk info (i + 1)).length = hashLen := Vector.length_toList

/-- Every block is one hash long. -/
@[simp] theorem blocks_length (n : Nat) :
    (blocks hmac octet prk info n).length = n * hashLen := by
  induction n with
  | zero => simp
  | succ n ih => simp [blocks_succ, ih, Nat.add_mul]

/-- More blocks do not change the ones before. -/
theorem blocks_add (n more : Nat) :
    ∃ rest, blocks hmac octet prk info (n + more) = blocks hmac octet prk info n ++ rest := by
  induction more with
  | zero => exact ⟨[], (List.append_nil _).symm⟩
  | succ more ih =>
      obtain ⟨rest, hRest⟩ := ih
      exact ⟨rest ++ block hmac octet prk info (n + more + 1), by
        rw [← Nat.add_assoc, blocks_succ, hRest, List.append_assoc]⟩

/-- The first bytes are the same in any number of blocks that has them. -/
theorem take_blocks {n m length : Nat} (hn : length ≤ n * hashLen) (hm : n ≤ m) :
    (blocks hmac octet prk info m).take length = (blocks hmac octet prk info n).take length := by
  obtain ⟨more, rfl⟩ := Nat.exists_eq_add_of_le hm
  obtain ⟨rest, hRest⟩ := blocks_add n more
  rw [hRest, List.take_append_of_le_length]
  rwa [blocks_length]

/-- As many blocks as `expand` takes are enough. -/
theorem le_rounds (hHash : 0 < hashLen) (length : Nat) :
    length ≤ (length + hashLen - 1) / hashLen * hashLen := by
  have hDivision := Nat.div_add_mod (length + hashLen - 1) hashLen
  have hRest := Nat.mod_lt (length + hashLen - 1) hHash
  rw [Nat.mul_comm] at hDivision
  omega

/-- The number of rounds is the least number of blocks that covers the length.
-/
theorem rounds_le (hHash : 0 < hashLen) {length n : Nat} (h : length ≤ n * hashLen) :
    (length + hashLen - 1) / hashLen ≤ n := by
  have hBound : length + hashLen - 1 < (n + 1) * hashLen := by
    rw [Nat.add_mul]
    omega
  exact Nat.le_of_lt_succ ((Nat.div_lt_iff_lt_mul hHash).mpr hBound)

/-- The output is the beginning of the stream, however far the stream is taken. -/
theorem expand_eq (hHash : 0 < hashLen) {length n : Nat} (hLength : length ≤ 255 * hashLen)
    (hn : length ≤ n * hashLen) :
    expand hmac octet prk info length = some ((blocks hmac octet prk info n).take length) := by
  rw [expand, if_pos hLength, take_blocks (le_rounds hHash length) (rounds_le hHash hn)]

end KeyExpansion
