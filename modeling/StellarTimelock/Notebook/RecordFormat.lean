import StellarTimelock.Notebook.Record

/-! The text of a record, and the check that tells a record from other text. -/
namespace NotebookRecord

open NotebookCrypto (WordArray)
open Base64 (JsString)

/-- `[A-Za-z0-9+/=]`. -/
def isBase64Char (unit : UInt16) : Bool :=
  let n := unit.toNat
  (65 ≤ n && n ≤ 90) || (97 ≤ n && n ≤ 122) || (48 ≤ n && n ≤ 57) || n == 43 || n == 47 || n == 61

/-- `/^[A-Za-z0-9+/=]+$/`. -/
def isBase64 (text : JsString) : Bool := !text.isEmpty && text.all isBase64Char

/-- Without a dot, `indexOf` is negative. -/
def isEncryptedPayload (s : JsString) : Bool :=
  if s.length < 32 then false
  else
    match s.findIdx? (· == dot) with
    | none => false
    | some i => if i < 8 then false else isBase64 (s.take i) && isBase64 (s.drop (i + 1))

/-- Whatever `stringify` has written passes the test for Base64, if there was
anything to write. -/
theorem isBase64_stringify {bytes : List UInt8} (h : bytes ≠ []) :
    isBase64 (Base64.stringify bytes) = true := by
  have hLength : 0 < bytes.length := List.length_pos_iff.mpr h
  have hSome : Base64.stringify bytes ≠ [] := by
    apply List.ne_nil_of_length_pos
    rw [Base64.stringify_length]
    omega
  have hAlphabet : ∀ unit ∈ Base64.stringify bytes, isBase64Char unit = true :=
    Base64.forall_mem_stringify (by decide) (by decide) bytes
  unfold isBase64
  rw [List.all_eq_true.mpr hAlphabet, Bool.and_true]
  simpa using hSome

/-- The first dot of a joined text stands right after the first part, for that
part has none. -/
theorem findIdx?_dot {first : JsString} (hFirst : dot ∉ first) (second : JsString) :
    (first ++ dot :: second).findIdx? (· == dot) = some first.length := by
  rw [List.findIdx?_eq_some_iff_getElem]
  refine ⟨by simp, by simp, ?_⟩
  intro j hj hDot
  rw [List.getElem_append_left hj] at hDot
  exact hFirst (beq_iff_eq.mp hDot ▸ List.getElem_mem hj)

/-- Two texts in base64, long enough together and the first of at least eight
characters, pass the check. -/
theorem isEncryptedPayload_append {first second : List UInt8} (hFirst : 16 ≤ first.length)
    (hSecond : 4 ≤ second.length) :
    isEncryptedPayload (Base64.stringify first ++ dot :: Base64.stringify second) = true := by
  have hFirstLength := Base64.stringify_length first
  have hSecondLength := Base64.stringify_length second
  have hLength : ¬(Base64.stringify first ++ dot :: Base64.stringify second).length < 32 := by
    rw [List.length_append, List.length_cons]
    omega
  have hBefore : ¬(Base64.stringify first).length < 8 := by omega
  have hDrop : (Base64.stringify first ++ dot :: Base64.stringify second).drop
      ((Base64.stringify first).length + 1) = Base64.stringify second := by
    rw [List.drop_append]
    simp
  unfold isEncryptedPayload
  rw [if_neg hLength, findIdx?_dot (dot_not_mem first)]
  simp only [if_neg hBefore, List.take_left', hDrop]
  rw [isBase64_stringify (List.ne_nil_of_length_pos (by omega)),
    isBase64_stringify (List.ne_nil_of_length_pos (by omega))]
  rfl

variable {aes : WordArray → Equiv.Perm Block}

variable (aes) in
/-- Even the empty text is padded to a block. -/
theorem ciphertext_length (key : WordArray) (iv : Block) (plaintext : String) :
    16 ≤ (ciphertext aes key iv plaintext).length := by
  obtain ⟨hBlocks, hPositive⟩ := pad_length (bytesOf (utf8Parse plaintext))
  unfold ciphertext plainBlocks
  rw [BlockCipher.join_length, BlockCipher.encryptCbc_length, BlockCipher.split_length]
  omega

/-- One more byte at the end of a number. -/
theorem shiftLeft_or_byte (x : Nat) (byte : UInt8) :
    x <<< 8 ||| byte.toNat = x * 2 ^ 8 + byte.toNat := by
  rw [← Nat.shiftLeft_add_eq_or_of_lt byte.toNat_lt, Nat.shiftLeft_eq]

/-- The shifts do not lose the top bit of the first byte. -/
theorem word_toNat (a b c d : UInt8) :
    (word a b c d).toNat =
      a.toNat * 2 ^ 24 + b.toNat * 2 ^ 16 + c.toNat * 2 ^ 8 + d.toNat := by
  have ha := a.toNat_lt
  have hb := b.toNat_lt
  have hc := c.toNat_lt
  have hd := d.toNat_lt
  have hNested : (word a b c d).toNat =
      ((a.toNat <<< 8 ||| b.toNat) <<< 8 ||| c.toNat) <<< 8 ||| d.toNat := by
    unfold word
    simp only [BitVec.toNat_or, BitVec.toNat_shiftLeft, BitVec.toNat_setWidth,
      UInt8.toNat_toBitVec, Nat.shiftLeft_or_distrib, ← Nat.shiftLeft_add]
    simp only [Nat.shiftLeft_eq]
    repeat rw [Nat.mod_eq_of_lt (by omega)]
  rw [hNested, shiftLeft_or_byte, shiftLeft_or_byte, shiftLeft_or_byte]
  omega

/-- The number of words is a quarter of the number of bytes, rounded up. -/
theorem packWords_length (bytes : List UInt8) :
    (packWords bytes).length = (bytes.length + 3) / 4 := by
  fun_induction packWords bytes with
  | case1 a b c d rest ih =>
      simp only [List.length_cons, ih]
      omega
  | case2 a b c => simp
  | case3 a b => simp
  | case4 a => simp
  | case5 => rfl

/-- Each word that is full packs the four bytes at its place, the first of them
highest. -/
theorem packWords_word (bytes : List UInt8) (i : Nat) (h : 4 * i + 4 ≤ bytes.length) :
    (packWords bytes)[i]? = some (word (bytes.getD (4 * i) 0) (bytes.getD (4 * i + 1) 0)
      (bytes.getD (4 * i + 2) 0) (bytes.getD (4 * i + 3) 0)) := by
  fun_induction packWords bytes generalizing i with
  | case1 a b c d rest ih =>
      cases i with
      | zero => rfl
      | succ i =>
          simp only [List.length_cons] at h
          exact ih i (by omega)
  | case2 a b c =>
      simp only [List.length_cons, List.length_nil] at h
      omega
  | case3 a b =>
      simp only [List.length_cons, List.length_nil] at h
      omega
  | case4 a =>
      simp only [List.length_cons, List.length_nil] at h
      omega
  | case5 =>
      simp only [List.length_nil] at h
      omega

/-- Every record passes the check, has one dot, and gives back its IV, whose
words are its bytes in big-endian order, and its plaintext. -/
theorem record_round_trip (aes : WordArray → Equiv.Perm Block) (key : WordArray)
    (ivBytes : Vector UInt8 16) (plaintext : String) :
    isEncryptedPayload (encrypt aes key ivBytes plaintext) = true ∧
    (encrypt aes key ivBytes plaintext).count dot = 1 ∧
    decrypt aes key (encrypt aes key ivBytes plaintext) = some plaintext ∧
    (ivWords ivBytes).length = 4 ∧
    (∀ i : Fin 4, (ivWords ivBytes)[i.val]?.map BitVec.toNat =
      some ((ivBytes.toList.getD (4 * i) 0).toNat * 2 ^ 24 +
        (ivBytes.toList.getD (4 * i + 1) 0).toNat * 2 ^ 16 +
        (ivBytes.toList.getD (4 * i + 2) 0).toNat * 2 ^ 8 +
        (ivBytes.toList.getD (4 * i + 3) 0).toNat)) ∧
    ofBytes (Base64.parse (splitDots (encrypt aes key ivBytes plaintext)).1) =
      ⟨ivWords ivBytes, 16⟩ ∧
    bytesOf ⟨ivWords ivBytes, 16⟩ = ivBytes.toList := by
  have hLength : ivBytes.toList.length = 16 := ivBytes.length_toList
  have hPayload : encrypt aes key ivBytes plaintext =
      Base64.stringify ivBytes.toList ++ dot ::
        Base64.stringify (ciphertext aes key (firstBlock ivBytes.toList) plaintext) := by
    have hIv : ivBlock ⟨ivWords ivBytes, 16⟩ = firstBlock ivBytes.toList :=
      ivBlock_packWords ivBytes.toList 16
    simp only [encrypt, bytesOf_iv, bytesOf_aesEncrypt, hIv]
  refine ⟨?_, ?_, ?_, ?_, ?_, ?_, bytesOf_iv ivBytes⟩
  · have hCiphertext := ciphertext_length aes key (firstBlock ivBytes.toList) plaintext
    rw [hPayload]
    exact isEncryptedPayload_append (by omega) (by omega)
  · rw [hPayload, List.count_append, List.count_cons_self,
      List.count_eq_zero_of_not_mem (dot_not_mem _), List.count_eq_zero_of_not_mem (dot_not_mem _)]
  · exact decrypt_ciphertext (decode_encrypt key ivBytes plaintext)
  · unfold ivWords
    rw [packWords_length, hLength]
  · intro i
    unfold ivWords
    rw [packWords_word ivBytes.toList i (by omega), Option.map_some, word_toNat]
  · rw [hPayload, splitDots_append (dot_not_mem _) (dot_not_mem _), Base64.parse_stringify]
    unfold ofBytes
    rw [hLength]
    rfl

end NotebookRecord
