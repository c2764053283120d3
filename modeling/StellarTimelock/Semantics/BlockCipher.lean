import Mathlib.Logic.Equiv.Defs
import Mathlib.Data.List.OfFn

/-! Cipher block chaining over any permutation of blocks, and the cutting of a
text into blocks. -/
namespace BlockCipher

universe u

variable {Block : Type u} (E : Equiv.Perm Block) (mix : Block → Block → Block)

/-- Each block is mixed with the ciphertext block before it and enciphered. -/
def encryptCbc : Block → List Block → List Block
  | _, [] => []
  | previous, block :: rest =>
      E (mix block previous) :: encryptCbc (E (mix block previous)) rest

def decryptCbc : Block → List Block → List Block
  | _, [] => []
  | previous, block :: rest => mix (E.symm block) previous :: decryptCbc block rest

/-- Chaining makes as many blocks as it is given. -/
theorem encryptCbc_length (previous : Block) (blocks : List Block) :
    (encryptCbc E mix previous blocks).length = blocks.length := by
  induction blocks generalizing previous with
  | nil => rfl
  | cons block rest ih => exact congrArg (· + 1) (ih _)

/-- Decryption undoes encryption if mixing undoes itself. -/
theorem decryptCbc_encryptCbc (hMix : ∀ a b, mix (mix a b) b = a) (previous : Block)
    (blocks : List Block) :
    decryptCbc E mix previous (encryptCbc E mix previous blocks) = blocks := by
  induction blocks generalizing previous with
  | nil => rfl
  | cons block rest ih =>
      rw [encryptCbc, decryptCbc, Equiv.symm_apply_apply, hMix, ih]

/-- A block is decrypted with nothing but the one before it. -/
theorem decryptCbc_getElem? {previous : Block} {blocks : List Block} {i : Nat} {block before : Block}
    (hBlock : blocks[i]? = some block) (hBefore : (previous :: blocks)[i]? = some before) :
    (decryptCbc E mix previous blocks)[i]? = some (mix (E.symm block) before) := by
  induction blocks generalizing previous i with
  | nil => cases hBlock
  | cons first rest ih =>
      cases i with
      | zero =>
          cases hBlock
          cases hBefore
          rfl
      | succ i => exact ih hBlock hBefore

/-- A ciphertext block that stands in another place, or after another block,
decrypts to its plaintext mixed with the block that it stood after and with the
one that it now stands after. -/
theorem decryptCbc_moved (hMix : ∀ a b, mix (mix a b) b = a) {previous previous' : Block}
    {blocks blocks' : List Block} {i j : Nat} {block before before' plain : Block}
    (hBlock : blocks[i]? = some block) (hBefore : (previous :: blocks)[i]? = some before)
    (hPlain : (decryptCbc E mix previous blocks)[i]? = some plain)
    (hBlock' : blocks'[j]? = some block) (hBefore' : (previous' :: blocks')[j]? = some before') :
    (decryptCbc E mix previous' blocks')[j]? = some (mix (mix plain before) before') := by
  have hHere := (decryptCbc_getElem? E mix hBlock hBefore).symm.trans hPlain
  rw [decryptCbc_getElem? E mix hBlock' hBefore', ← Option.some.inj hHere, hMix]

section Split

variable {α : Type u} {w : Nat}

/-- The first `n` blocks of a text, filled up with a default. -/
def split (w : Nat) (filler : α) : Nat → List α → List (Fin w → α)
  | 0, _ => []
  | n + 1, text => (fun j => text.getD j filler) :: split w filler n (text.drop w)

def join (blocks : List (Fin w → α)) : List α := blocks.flatMap List.ofFn

theorem split_length (filler : α) (n : Nat) (text : List α) :
    (split w filler n text).length = n := by
  induction n generalizing text with
  | zero => rfl
  | succ n ih => exact congrArg (· + 1) (ih _)

theorem join_length (blocks : List (Fin w → α)) : (join blocks).length = blocks.length * w := by
  induction blocks with
  | nil => rw [List.length_nil, Nat.zero_mul, join, List.flatMap_nil, List.length_nil]
  | cons block rest ih =>
      have hRest : (rest.flatMap List.ofFn).length = rest.length * w := ih
      rw [join, List.flatMap_cons, List.length_append, List.length_ofFn, hRest, List.length_cons,
        Nat.succ_mul, Nat.add_comm]

/-- Blocks that are joined and split again are the same blocks, whatever the
filler. -/
theorem split_join (filler : α) (blocks : List (Fin w → α)) :
    split w filler blocks.length (join blocks) = blocks := by
  induction blocks with
  | nil => rfl
  | cons block rest ih =>
      have hJoin : join (block :: rest) = List.ofFn block ++ join rest := List.flatMap_cons
      rw [List.length_cons, split, hJoin, List.drop_left' List.length_ofFn, ih]
      congr 1
      funext j
      have hIndex : (j : Nat) < (List.ofFn block).length := by
        rw [List.length_ofFn]
        exact j.isLt
      rw [List.getD_eq_getElem?_getD, List.getElem?_append_left hIndex,
        List.getElem?_eq_getElem hIndex, List.getElem_ofFn]
      rfl

/-- A text of whole blocks that is split and joined again is the same text; the
filler is not used. -/
theorem join_split (filler : α) {n : Nat} {text : List α} (h : text.length = n * w) :
    join (split w filler n text) = text := by
  induction n generalizing text with
  | zero =>
      rw [Nat.zero_mul] at h
      rw [List.length_eq_zero_iff.mp h]
      rfl
  | succ n ih =>
      rw [Nat.succ_mul] at h
      have hRest : join (split w filler n (text.drop w)) = text.drop w :=
        ih (by rw [List.length_drop]; omega)
      have hFirst : List.ofFn (fun j : Fin w => text.getD j filler) = text.take w := by
        apply List.ext_getElem
        · rw [List.length_ofFn, List.length_take]
          omega
        · intro j hj hj'
          rw [List.length_take] at hj'
          have hBound : j < text.length := by omega
          rw [List.getElem_ofFn, List.getElem_take, List.getD_eq_getElem?_getD,
            List.getElem?_eq_getElem hBound]
          rfl
      have hJoin : join (split w filler (n + 1) text) =
          List.ofFn (fun j : Fin w => text.getD j filler) ++ join (split w filler n (text.drop w)) :=
        List.flatMap_cons
      rw [hJoin, hFirst, hRest, List.take_append_drop]

end Split

end BlockCipher
