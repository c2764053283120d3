import StellarTimelock.Notebook.Crypto
import StellarTimelock.Semantics.Base64
import StellarTimelock.Semantics.BlockCipher
import Mathlib.Data.List.GetD

/-! The records of the notebook: an IV and a ciphertext in base64. The block
cipher is any permutation of the 16-byte blocks for each key; there is no
authentication of a record. -/
namespace NotebookRecord

open NotebookCrypto (WordArray)
open Base64 (JsString)
open BlockCipher

/-- Four bytes as a 32-bit word, the first on top. -/
def word (a b c d : UInt8) : BitVec 32 :=
  a.toBitVec.setWidth 32 <<< 24 ||| b.toBitVec.setWidth 32 <<< 16 |||
    c.toBitVec.setWidth 32 <<< 8 ||| d.toBitVec.setWidth 32

/-- The words of a text; a missing byte counts as zero. -/
def packWords : List UInt8 → List (BitVec 32)
  | a :: b :: c :: d :: rest => word a b c d :: packWords rest
  | [a, b, c] => [word a b c 0]
  | [a, b] => [word a b 0 0]
  | [a] => [word a 0 0 0]
  | [] => []

def ofBytes (bytes : List UInt8) : WordArray := ⟨packWords bytes, bytes.length⟩

/-- A byte of a word array; what is missing counts as zero. -/
def byteAt (words : List (BitVec 32)) (i : Nat) : UInt8 :=
  UInt8.ofBitVec ((words.getD (i / 4) 0 >>> (24 - i % 4 * 8)).setWidth 8)

def bytesOf (wa : WordArray) : List UInt8 := (List.range wa.sigBytes).map (byteAt wa.words)

/-- `CryptoJS.enc.Utf8.parse`. -/
def utf8Parse (text : String) : WordArray := ofBytes text.toUTF8.data.toList

/-- `toString(CryptoJS.enc.Utf8)`; no text is an exception. -/
def utf8Stringify (wa : WordArray) : Option String :=
  String.fromUTF8? ⟨(bytesOf wa).toArray⟩

abbrev Block := Fin 16 → UInt8

def xorBlock (a b : Block) : Block := fun j => a j ^^^ b j

/-- The block that chaining starts with: the first four words of the IV. -/
def ivBlock (iv : WordArray) : Block := fun j => byteAt iv.words j

/-- PKCS7. -/
def pad (bytes : List UInt8) : List UInt8 :=
  bytes ++ List.replicate (16 - bytes.length % 16) (UInt8.ofNat (16 - bytes.length % 16))

/-- Cut off as many bytes as the last byte of the last word says, without
looking at the others. -/
def unpad (plain : List UInt8) (sigBytes : Nat) : List UInt8 :=
  plain.take (sigBytes - (plain.getD ((sigBytes - 1) / 4 * 4 + 3) 0).toNat)

/-- The blocks of a ciphertext; the last one may be incomplete. -/
def cipherBlocks (bytes : List UInt8) : List Block := split 16 0 ((bytes.length + 15) / 16) bytes

variable (aes : WordArray → Equiv.Perm Block)

def aesEncrypt (message key iv : WordArray) : WordArray :=
  let padded := pad (bytesOf message)
  ofBytes (join (encryptCbc (aes key) xorBlock (ivBlock iv)
    (split 16 0 (padded.length / 16) padded)))

def aesDecrypt (ciphertext key iv : WordArray) : WordArray :=
  let plain := join (decryptCbc (aes key) xorBlock (ivBlock iv) (cipherBlocks (bytesOf ciphertext)))
  ofBytes (unpad plain ciphertext.sigBytes)

/-- `.`. -/
def dot : UInt16 := 46

def ivWords (ivBytes : Vector UInt8 16) : List (BitVec 32) := packWords ivBytes.toList

/-- `encrypt`, given its key and the 16 random bytes. -/
def encrypt (key : WordArray) (ivBytes : Vector UInt8 16) (plaintext : String) : JsString :=
  let iv : WordArray := ⟨ivWords ivBytes, 16⟩
  let ct := aesEncrypt aes (utf8Parse plaintext) key iv
  Base64.stringify (bytesOf iv) ++ dot :: Base64.stringify (bytesOf ct)

/-- The first two parts of a text between dots. -/
def splitDots (payload : JsString) : JsString × JsString :=
  (payload.takeWhile (· ≠ dot), ((payload.dropWhile (· ≠ dot)).drop 1).takeWhile (· ≠ dot))

/-- `decrypt`, given its key; no text is an exception. -/
def decrypt (key : WordArray) (payload : JsString) : Option String :=
  if dot ∈ payload then
    let parts := splitDots payload
    let iv := ofBytes (Base64.parse parts.1)
    let ct := ofBytes (Base64.parse parts.2)
    utf8Stringify (aesDecrypt aes ct key iv)
  else some ""

theorem byteAt_word (a b c d : UInt8) (rest : List (BitVec 32)) {i : Nat} (hi : i < 4) :
    byteAt (word a b c d :: rest) i = [a, b, c, d].getD i 0 := by
  have hByte : UInt8.ofBitVec ((word a b c d >>> (24 - i * 8)).setWidth 8) =
      [a, b, c, d].getD i 0 := by
    apply UInt8.toBitVec_inj.mp
    unfold word
    ext j hj
    match i, hi with
    | 0, _ => simp [hj]; grind
    | 1, _ => simp [hj]; grind
    | 2, _ => simp [hj]; grind
    | 3, _ => simp
  unfold byteAt
  rw [Nat.div_eq_of_lt hi, Nat.mod_eq_of_lt hi]
  exact hByte

theorem byteAt_cons (first : BitVec 32) (rest : List (BitVec 32)) (i : Nat) :
    byteAt (first :: rest) (i + 4) = byteAt rest i := by
  unfold byteAt
  rw [Nat.add_div_right i (by decide), Nat.add_mod_right]
  rfl

theorem byteAt_nil (i : Nat) : byteAt [] i = 0 := by
  unfold byteAt
  simp

/-- A last word of fewer than four bytes. -/
theorem byteAt_last (a b c d : UInt8) (i : Nat) :
    byteAt [word a b c d] i = [a, b, c, d].getD i 0 := by
  rcases Nat.lt_or_ge i 4 with hi | hi
  · exact byteAt_word a b c d [] hi
  · obtain ⟨k, rfl⟩ := Nat.exists_eq_add_of_le' hi
    rw [byteAt_cons, byteAt_nil]
    rfl

/-- Packing bytes into words loses none of them: the byte at a place of the
words is the byte at that place of the list, and zero behind its end. -/
theorem byteAt_packWords (bytes : List UInt8) (i : Nat) :
    byteAt (packWords bytes) i = bytes.getD i 0 := by
  fun_induction packWords bytes generalizing i with
  | case1 a b c d rest ih =>
      rcases Nat.lt_or_ge i 4 with hi | hi
      · rw [byteAt_word a b c d _ hi]
        match i, hi with
        | 0, _ => rfl
        | 1, _ => rfl
        | 2, _ => rfl
        | 3, _ => rfl
      · obtain ⟨k, rfl⟩ := Nat.exists_eq_add_of_le' hi
        rw [byteAt_cons, ih]
        rfl
  | case2 a b c =>
      rw [byteAt_last]
      match i with
      | 0 => rfl
      | 1 => rfl
      | 2 => rfl
      | 3 => rfl
      | k + 4 => rfl
  | case3 a b =>
      rw [byteAt_last]
      match i with
      | 0 => rfl
      | 1 => rfl
      | 2 => rfl
      | 3 => rfl
      | k + 4 => rfl
  | case4 a =>
      rw [byteAt_last]
      match i with
      | 0 => rfl
      | 1 => rfl
      | 2 => rfl
      | 3 => rfl
      | k + 4 => rfl
  | case5 => exact byteAt_nil i

/-- A word array that was created from bytes and their number has these bytes.
-/
theorem bytesOf_create (bytes : List UInt8) : bytesOf ⟨packWords bytes, bytes.length⟩ = bytes := by
  unfold bytesOf
  apply List.ext_getElem
  · rw [List.length_map, List.length_range]
  · intro i hi hi'
    rw [List.getElem_map, List.getElem_range, byteAt_packWords, List.getD_eq_getElem _ _ hi']

@[simp] theorem bytesOf_ofBytes (bytes : List UInt8) : bytesOf (ofBytes bytes) = bytes :=
  bytesOf_create bytes

/-- A text survives `Utf8.parse` and `Utf8.stringify`. -/
theorem utf8Stringify_utf8Parse (text : String) : utf8Stringify (utf8Parse text) = some text := by
  unfold utf8Stringify utf8Parse
  rw [bytesOf_ofBytes]
  unfold String.fromUTF8?
  exact dif_pos text.isValidUTF8

/-- Xoring the same block twice leaves the block, which is what decryption
relies on in every link of the chain. -/
theorem xorBlock_cancel (a b : Block) : xorBlock (xorBlock a b) b = a := by
  funext j
  show a j ^^^ b j ^^^ b j = a j
  rw [UInt8.xor_assoc, UInt8.xor_self, UInt8.xor_zero]

/-- Padded bytes fill whole blocks, and one at least: a full block is added to
what fits already. -/
theorem pad_length (bytes : List UInt8) :
    (pad bytes).length = (pad bytes).length / 16 * 16 ∧ 0 < (pad bytes).length := by
  unfold pad
  rw [List.length_append, List.length_replicate]
  omega

/-- Padding is cut off again, whatever the last byte of the plaintext is. -/
theorem unpad_pad (bytes : List UInt8) : unpad (pad bytes) (pad bytes).length = bytes := by
  obtain ⟨hBlocks, hPositive⟩ := pad_length bytes
  have hLast : ((pad bytes).length - 1) / 4 * 4 + 3 = (pad bytes).length - 1 := by omega
  unfold unpad
  rw [hLast]
  unfold pad at hPositive ⊢
  rw [List.length_append, List.length_replicate] at hPositive ⊢
  have hByte : (bytes ++ List.replicate (16 - bytes.length % 16)
      (UInt8.ofNat (16 - bytes.length % 16))).getD
        (bytes.length + (16 - bytes.length % 16) - 1) 0 = UInt8.ofNat (16 - bytes.length % 16) := by
    rw [List.getD_eq_getElem?_getD, List.getElem?_append_right (by omega),
      List.getElem?_replicate, if_pos (by omega)]
    rfl
  have hCount : (UInt8.ofNat (16 - bytes.length % 16)).toNat = 16 - bytes.length % 16 := by
    rw [UInt8.toNat_ofNat']
    omega
  rw [hByte, hCount, Nat.add_sub_cancel, List.take_left' rfl]

/-- The first 16 bytes; a missing one counts as zero. -/
def firstBlock (bytes : List UInt8) : Block := fun j => bytes.getD j 0

/-- The blocks of the padded plaintext. -/
def plainBlocks (plaintext : String) : List Block :=
  split 16 0 ((pad (bytesOf (utf8Parse plaintext))).length / 16) (pad (bytesOf (utf8Parse plaintext)))

/-- The bytes of the ciphertext of a plaintext. -/
def ciphertext (key : WordArray) (iv : Block) (plaintext : String) : List UInt8 :=
  join (encryptCbc (aes key) xorBlock iv (plainBlocks plaintext))

/-- The IV and the ciphertext that `decrypt` finds in a payload. -/
def decode (payload : JsString) : Option (Block × List UInt8) :=
  if dot ∈ payload then
    some (ivBlock (ofBytes (Base64.parse (splitDots payload).1)),
      Base64.parse (splitDots payload).2)
  else none

/-- The blocks that `decrypt` cuts the padding from. -/
def decrypted (key : WordArray) (iv : Block) (ct : List UInt8) : List Block :=
  decryptCbc (aes key) xorBlock iv (cipherBlocks ct)

variable {aes}

theorem ivBlock_packWords (bytes : List UInt8) (sigBytes : Nat) :
    ivBlock ⟨packWords bytes, sigBytes⟩ = firstBlock bytes := by
  funext j
  exact byteAt_packWords bytes j

theorem bytesOf_iv (ivBytes : Vector UInt8 16) : bytesOf ⟨ivWords ivBytes, 16⟩ = ivBytes.toList := by
  have hLength : ivBytes.toList.length = 16 := ivBytes.length_toList
  have h := bytesOf_create ivBytes.toList
  rw [hLength] at h
  exact h

/-- Base64 has no dot, so that the dot of a record separates its two parts. -/
theorem dot_not_mem (bytes : List UInt8) : dot ∉ Base64.stringify bytes :=
  Base64.not_mem_stringify (by decide) (by decide) bytes

/-- Two parts without a dot, joined by one, are what `split('.', 2)` gives back.
-/
theorem splitDots_append {first second : JsString} (hFirst : dot ∉ first) (hSecond : dot ∉ second) :
    splitDots (first ++ dot :: second) = (first, second) := by
  have hBefore : ∀ unit ∈ first, decide (unit ≠ dot) = true := by
    intro unit hUnit
    exact decide_eq_true fun h => hFirst (h ▸ hUnit)
  have hAfter : ∀ unit ∈ second, decide (unit ≠ dot) = true := by
    intro unit hUnit
    exact decide_eq_true fun h => hSecond (h ▸ hUnit)
  unfold splitDots
  rw [List.takeWhile_append_of_pos hBefore, List.dropWhile_append_of_pos hBefore]
  simp only [ne_eq, decide_not, List.takeWhile_cons, List.dropWhile_cons, decide_true, Bool.not_true,
    Bool.false_eq_true, if_false, List.append_nil, List.drop_succ_cons, List.drop_zero]
  congr 1
  have hAll : (second ++ []).takeWhile (fun unit => decide (unit ≠ dot)) = second ++ [] :=
    List.takeWhile_append_of_pos hAfter
  simpa using hAll

theorem bytesOf_aesEncrypt (key iv : WordArray) (plaintext : String) :
    bytesOf (aesEncrypt aes (utf8Parse plaintext) key iv) =
      ciphertext aes key (ivBlock iv) plaintext :=
  bytesOf_ofBytes _

/-- A record decodes to its IV and its ciphertext: both parts are base64 of
exactly these bytes. -/
theorem decode_encrypt (key : WordArray) (ivBytes : Vector UInt8 16) (plaintext : String) :
    decode (encrypt aes key ivBytes plaintext) =
      some (firstBlock ivBytes.toList,
        ciphertext aes key (firstBlock ivBytes.toList) plaintext) := by
  have hIv : ivBlock ⟨ivWords ivBytes, 16⟩ = firstBlock ivBytes.toList :=
    ivBlock_packWords ivBytes.toList 16
  unfold decode encrypt
  rw [if_pos (List.mem_append_right _ List.mem_cons_self),
    splitDots_append (dot_not_mem _) (dot_not_mem _), Base64.parse_stringify,
    Base64.parse_stringify, bytesOf_iv, bytesOf_aesEncrypt, hIv, ofBytes, ivBlock_packWords]

/-- `decrypt` looks at nothing but the decoded IV and ciphertext. -/
theorem decrypt_of_decode {key : WordArray} {payload : JsString} {iv : Block} {ct : List UInt8}
    (h : decode payload = some (iv, ct)) :
    decrypt aes key payload =
      utf8Stringify (ofBytes (unpad (join (decrypted aes key iv ct)) ct.length)) := by
  unfold decode at h
  split at h
  · next hDot =>
      cases h
      unfold decrypt
      rw [if_pos hDot]
      simp only [aesDecrypt, bytesOf_ofBytes]
      rfl
  · cases h

/-- A payload that decodes to nothing, as it has no dot or no ciphertext,
decrypts to the empty text and raises no exception. -/
theorem decrypt_of_undecoded {key : WordArray} {payload : JsString} (h : decode payload = none) :
    decrypt aes key payload = some "" := by
  unfold decode at h
  split at h
  · cases h
  · next hDot =>
      unfold decrypt
      rw [if_neg hDot]

/-- The blocks of a ciphertext that `encrypt` has made are those that chaining
has produced: its length is a multiple of the block's. -/
theorem cipherBlocks_ciphertext (key : WordArray) (iv : Block) (plaintext : String) :
    cipherBlocks (ciphertext aes key iv plaintext) =
      encryptCbc (aes key) xorBlock iv (plainBlocks plaintext) := by
  unfold cipherBlocks ciphertext
  have hCount : ((join (encryptCbc (aes key) xorBlock iv (plainBlocks plaintext))).length + 15) / 16 =
      (encryptCbc (aes key) xorBlock iv (plainBlocks plaintext)).length := by
    rw [join_length]
    omega
  rw [hCount, split_join]

/-- Decrypting what was encrypted gives the padded blocks back, for any
permutation of blocks in the place of AES. -/
theorem decrypted_ciphertext (aes : WordArray → Equiv.Perm Block) (key : WordArray) (iv : Block)
    (plaintext : String) :
    decrypted aes key iv (ciphertext aes key iv plaintext) = plainBlocks plaintext := by
  unfold decrypted
  rw [cipherBlocks_ciphertext, decryptCbc_encryptCbc _ _ xorBlock_cancel]

/-- A payload that decodes to an IV and to a ciphertext made under it and under
the key is decrypted to the plaintext. -/
theorem decrypt_ciphertext {key : WordArray} {payload : JsString} {iv : Block} {plaintext : String}
    (h : decode payload = some (iv, ciphertext aes key iv plaintext)) :
    decrypt aes key payload = some plaintext := by
  have hJoin : join (plainBlocks plaintext) = pad (bytesOf (utf8Parse plaintext)) :=
    join_split 0 (pad_length _).1
  have hLength : (ciphertext aes key iv plaintext).length =
      (pad (bytesOf (utf8Parse plaintext))).length := by
    unfold ciphertext plainBlocks
    rw [join_length, encryptCbc_length, split_length]
    exact (pad_length _).1.symm
  have hParsed : ofBytes (bytesOf (utf8Parse plaintext)) = utf8Parse plaintext := by
    unfold utf8Parse
    rw [bytesOf_ofBytes]
  rw [decrypt_of_decode h, decrypted_ciphertext, hJoin, hLength, unpad_pad, hParsed,
    utf8Stringify_utf8Parse]

/-- What a payload in the place of a record decrypts to. Without a dot, or
without a ciphertext, it is the empty text. With the IV and the ciphertext of
the record, however they are spelled, it is the plaintext. Otherwise the record
is malleable: wherever one of its ciphertext blocks stands, the plaintext of
this block comes out, mixed with the block before it there and in the record. -/
theorem tampering_effect (aes : WordArray → Equiv.Perm Block) (key : WordArray)
    (ivBytes : Vector UInt8 16) (plaintext : String) (payload : JsString) :
    (decode payload = none → decrypt aes key payload = some "") ∧
    (∀ iv, decode payload = some (iv, []) → decrypt aes key payload = some "") ∧
    (decode payload = decode (encrypt aes key ivBytes plaintext) →
      decrypt aes key payload = some plaintext) ∧
    ∀ iv ct iv' ct', decode (encrypt aes key ivBytes plaintext) = some (iv, ct) →
      decode payload = some (iv', ct') →
      decrypt aes key payload =
        utf8Stringify (ofBytes (unpad (join (decrypted aes key iv' ct')) ct'.length)) ∧
      ∀ (i j : Nat) (block before before' plain : Block), (cipherBlocks ct)[i]? = some block →
        (iv :: cipherBlocks ct)[i]? = some before → (plainBlocks plaintext)[i]? = some plain →
        (cipherBlocks ct')[j]? = some block → (iv' :: cipherBlocks ct')[j]? = some before' →
        (decrypted aes key iv' ct')[j]? = some (xorBlock (xorBlock plain before) before') := by
  refine ⟨decrypt_of_undecoded, ?_, ?_, ?_⟩
  · intro iv h
    rw [decrypt_of_decode h]
    rfl
  · intro h
    rw [decode_encrypt] at h
    exact decrypt_ciphertext h
  · intro iv ct iv' ct' hRecord hPayload
    refine ⟨decrypt_of_decode hPayload, ?_⟩
    intro i j block before before' plain hBlock hBefore hPlain hBlock' hBefore'
    rw [decode_encrypt] at hRecord
    cases hRecord
    rw [← decrypted_ciphertext aes key] at hPlain
    exact decryptCbc_moved (aes key) xorBlock xorBlock_cancel hBlock hBefore hPlain hBlock' hBefore'

/-- A cipher that leaves every block as it is. -/
def plainCipher : WordArray → Equiv.Perm Block := fun _ => Equiv.refl Block

/-- A record under the zero IV, and the same ciphertext after another IV. -/
def zeroIv : Vector UInt8 16 := Vector.replicate 16 0

def record : JsString := encrypt plainCipher ⟨[], 0⟩ zeroIv "A"

def flippedRecord : JsString :=
  Base64.stringify (1 :: List.replicate 15 0) ++ dot :: (splitDots record).2

/-- The record with one bit of its IV flipped decodes to the other IV and the
same ciphertext. -/
theorem decode_flippedRecord : decode flippedRecord =
    some (firstBlock (1 :: List.replicate 15 0),
      ciphertext plainCipher ⟨[], 0⟩ (firstBlock zeroIv.toList) "A") := by
  have hParts : splitDots record = (Base64.stringify (bytesOf ⟨ivWords zeroIv, 16⟩),
      Base64.stringify (bytesOf (aesEncrypt plainCipher (utf8Parse "A") ⟨[], 0⟩
        ⟨ivWords zeroIv, 16⟩))) := splitDots_append (dot_not_mem _) (dot_not_mem _)
  have hIv : ivBlock ⟨ivWords zeroIv, 16⟩ = firstBlock zeroIv.toList :=
    ivBlock_packWords zeroIv.toList 16
  unfold decode flippedRecord
  rw [if_pos (List.mem_append_right _ List.mem_cons_self), hParts,
    splitDots_append (dot_not_mem _) (dot_not_mem _), Base64.parse_stringify,
    Base64.parse_stringify, bytesOf_aesEncrypt, hIv, ofBytes, ivBlock_packWords]

/-- One flipped bit of the IV turns one letter into another. -/
theorem flippedRecord_accepted :
    flippedRecord ≠ record ∧ decrypt plainCipher ⟨[], 0⟩ record = some "A" ∧
      decrypt plainCipher ⟨[], 0⟩ flippedRecord = some "@" := by
  have hLetter : ofBytes (unpad (join (decrypted plainCipher ⟨[], 0⟩
      (firstBlock (1 :: List.replicate 15 0))
      (ciphertext plainCipher ⟨[], 0⟩ (firstBlock zeroIv.toList) "A")))
      (ciphertext plainCipher ⟨[], 0⟩ (firstBlock zeroIv.toList) "A").length) = utf8Parse "@" := by
    decide
  have hAccepted : decrypt plainCipher ⟨[], 0⟩ flippedRecord = some "@" := by
    rw [decrypt_of_decode decode_flippedRecord, hLetter, utf8Stringify_utf8Parse]
  have hRecord : decrypt plainCipher ⟨[], 0⟩ record = some "A" :=
    decrypt_ciphertext (decode_encrypt ⟨[], 0⟩ zeroIv "A")
  refine ⟨?_, hRecord, hAccepted⟩
  intro hSame
  rw [hSame, hRecord] at hAccepted
  exact absurd (Option.some.inj hAccepted) (by decide)

/-- A third part after the ciphertext is not read. -/
theorem tampering_effect_sample :
    decrypt plainCipher ⟨[], 0⟩ (record ++ [dot, 65]) = some "A" := by
  refine (tampering_effect plainCipher ⟨[], 0⟩ zeroIv "A" (record ++ [dot, 65])).2.2.1 ?_
  have hParts : splitDots (record ++ [dot, 65]) = splitDots record := by decide
  have hDot : dot ∈ record := by decide
  show decode (record ++ [dot, 65]) = decode record
  unfold decode
  rw [hParts, if_pos (List.mem_append_left _ hDot), if_pos hDot]

end NotebookRecord
