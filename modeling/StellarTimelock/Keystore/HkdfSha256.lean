import StellarTimelock.Keystore.Biometric
import StellarTimelock.Notebook.RecordFormat
import StellarTimelock.Semantics.KeyExpansion

/-! `hkdfSha256` over words computes the key derivation of RFC 5869 over bytes. -/
namespace Biometric

open NotebookCrypto (WordArray)
open NotebookRecord (byteAt bytesOf ofBytes packWords utf8Parse)

variable {C : CryptoJs} {hmac : (key message : List UInt8) → Vector UInt8 32}

theorem byteAt_take (words : List (BitVec 32)) {i length : Nat} (h : i < length) :
    byteAt (words.take ((length + 3) / 4)) i = byteAt words i := by
  have hWord : i / 4 < (length + 3) / 4 := by omega
  rw [byteAt, byteAt, List.getD_eq_getElem?_getD, List.getD_eq_getElem?_getD,
    List.getElem?_take_of_lt hWord]

/-- The words that are cut off hold none of the first bytes. -/
theorem bytesOf_truncated (output : WordArray) {length : Nat} (h : length ≤ output.sigBytes) :
    bytesOf ⟨output.words.take ((length + 3) / 4), length⟩ = (bytesOf output).take length := by
  have hRange : (List.range output.sigBytes).take length = List.range length := by
    rw [List.take_range, Nat.min_eq_left h]
  rw [bytesOf, bytesOf, ← List.map_take, hRange]
  apply List.map_congr_left
  intro i hi
  exact byteAt_take output.words (List.mem_range.mp hi)

theorem bytesOf_length (wa : WordArray) : (bytesOf wa).length = wa.sigBytes := by
  simp [bytesOf]

/-- The counter is one byte, also where the shifted word is negative. -/
theorem bytesOf_counter (i : Nat) :
    bytesOf ⟨[BitVec.ofNat 32 i <<< 24], 1⟩ = [UInt8.ofNat i] := by
  have hByte : byteAt [BitVec.ofNat 32 i <<< 24] 0 = UInt8.ofNat i := by
    apply UInt8.toBitVec_inj.mp
    show ((BitVec.ofNat 32 i <<< 24) >>> 24).setWidth 8 = BitVec.ofNat 8 i
    apply BitVec.eq_of_toNat_eq
    simp only [BitVec.toNat_setWidth, BitVec.toNat_ushiftRight, BitVec.toNat_shiftLeft,
      BitVec.toNat_ofNat, Nat.shiftLeft_eq, Nat.shiftRight_eq_div_pow]
    omega
  rw [bytesOf, List.range_one, List.map_singleton, hByte]

/-- One round makes the next block, and the loop all of them. -/
theorem expand_bytes (hConcat : ∀ a b, bytesOf (C.concat a b) = bytesOf a ++ bytesOf b)
    (hHmac : ∀ message key,
      bytesOf (C.hmacSha256 message key) = (hmac (bytesOf key) (bytesOf message)).toList)
    (prk infoBytes : WordArray) (rounds k : Nat) {t output : WordArray}
    (hT : bytesOf t = KeyExpansion.block hmac UInt8.ofNat (bytesOf prk) (bytesOf infoBytes) k)
    (hOutput : bytesOf output =
      KeyExpansion.blocks hmac UInt8.ofNat (bytesOf prk) (bytesOf infoBytes) k) :
    bytesOf (expand C prk infoBytes rounds (k + 1) t output) =
      KeyExpansion.blocks hmac UInt8.ofNat (bytesOf prk) (bytesOf infoBytes) (k + rounds) := by
  induction rounds generalizing k t output with
  | zero => exact hOutput
  | succ rounds ih =>
      have hNext : bytesOf (C.hmacSha256 (C.concat (C.concat t infoBytes)
          ⟨[BitVec.ofNat 32 (k + 1) <<< 24], 1⟩) prk) =
          KeyExpansion.block hmac UInt8.ofNat (bytesOf prk) (bytesOf infoBytes) (k + 1) := by
        rw [hHmac, hConcat, hConcat, hT, bytesOf_counter]
        rfl
      rw [expand, Nat.add_comm rounds, ← Nat.add_assoc]
      apply ih (k + 1) hNext
      rw [hConcat, hOutput, hNext, KeyExpansion.blocks_succ]

/-- As many blocks as the loop has rounds, cut off at the length. -/
theorem hkdfSha256_bytes (hConcat : ∀ a b, bytesOf (C.concat a b) = bytesOf a ++ bytesOf b)
    (hHmac : ∀ message key,
      bytesOf (C.hmacSha256 message key) = (hmac (bytesOf key) (bytesOf message)).toList)
    (ikm salt : WordArray) (info : String) (length : Nat) :
    bytesOf (hkdfSha256 C ikm salt info length) =
      (KeyExpansion.blocks hmac UInt8.ofNat
        (KeyExpansion.extract hmac (bytesOf salt) (bytesOf ikm)) (bytesOf (C.utf8Parse info))
        ((length + 31) / 32)).take length := by
  have hPrk : bytesOf (C.hmacSha256 ikm salt) =
      KeyExpansion.extract hmac (bytesOf salt) (bytesOf ikm) := hHmac ikm salt
  have hRun := expand_bytes hConcat hHmac (C.hmacSha256 ikm salt) (C.utf8Parse info)
    ((length + 31) / 32) 0 (show bytesOf ⟨[], 0⟩ = _ from rfl)
    (show bytesOf ⟨[], 0⟩ = _ from rfl)
  rw [hPrk, Nat.zero_add, Nat.zero_add] at hRun
  have hOutput := congrArg List.length hRun
  rw [bytesOf_length, KeyExpansion.blocks_length] at hOutput
  rw [← hRun]
  apply bytesOf_truncated
  omega

/-- The output is the one of RFC 5869: PRK is the hash of the key material under
the salt, and of the stream of blocks under PRK, however far it is taken, the
output is the beginning. Every counter is the number of its block. -/
theorem hkdfSha256_conforms (C : CryptoJs) (hmac : (key message : List UInt8) → Vector UInt8 32)
    (hConcat : ∀ a b, bytesOf (C.concat a b) = bytesOf a ++ bytesOf b)
    (hHmac : ∀ message key,
      bytesOf (C.hmacSha256 message key) = (hmac (bytesOf key) (bytesOf message)).toList)
    (ikm salt : WordArray) (info : String) (length : Nat) (hLength : length ≤ 255 * 32) :
    let prk := (hmac (bytesOf salt) (bytesOf ikm)).toList
    let infoBytes := bytesOf (C.utf8Parse info)
    let okm := hkdfSha256 C ikm salt info length
    okm.sigBytes = length ∧
    KeyExpansion.derive hmac UInt8.ofNat (bytesOf salt) (bytesOf ikm) infoBytes length =
      some (bytesOf okm) ∧
    (∀ n, length ≤ n * 32 → bytesOf okm =
      ((List.range n).flatMap fun i =>
        KeyExpansion.block hmac UInt8.ofNat prk infoBytes (i + 1)).take length) ∧
    ∀ i ≤ (length + 31) / 32, (UInt8.ofNat i).toNat = i := by
  intro prk infoBytes okm
  have hEnough : length ≤ (length + 31) / 32 * 32 := by omega
  have hBytes := hkdfSha256_bytes hConcat hHmac ikm salt info length
  refine ⟨rfl, ?_, ?_, ?_⟩
  · rw [hBytes]
    exact KeyExpansion.expand_eq (by decide) hLength hEnough
  · intro n hn
    rw [hBytes]
    exact (KeyExpansion.take_blocks hEnough (by omega)).symm
  · intro i hi
    rw [UInt8.toNat_ofNat']
    omega

/-- HMAC-SHA-256 at the three inputs of the derivation below. -/
def sampleHmac (key message : List UInt8) : Vector UInt8 32 :=
  let prk : Vector UInt8 32 :=
    #v[0x19, 0xef, 0x24, 0xa3, 0x2c, 0x71, 0x7b, 0x16, 0x7f, 0x33, 0xa9, 0x1d, 0x6f, 0x64,
      0x8b, 0xdf, 0x96, 0x59, 0x67, 0x76, 0xaf, 0xdb, 0x63, 0x77, 0xac, 0x43, 0x4c, 0x1c,
      0x29, 0x3c, 0xcb, 0x04]
  let first : Vector UInt8 32 :=
    #v[0x8d, 0xa4, 0xe7, 0x75, 0xa5, 0x63, 0xc1, 0x8f, 0x71, 0x5f, 0x80, 0x2a, 0x06, 0x3c,
      0x5a, 0x31, 0xb8, 0xa1, 0x1f, 0x5c, 0x5e, 0xe1, 0x87, 0x9e, 0xc3, 0x45, 0x4e, 0x5f,
      0x3c, 0x73, 0x8d, 0x2d]
  let second : Vector UInt8 32 :=
    #v[0x9d, 0x20, 0x13, 0x95, 0xfa, 0xa4, 0xb6, 0x1a, 0x96, 0xc8, 0xb2, 0xfb, 0x61, 0x05,
      0x72, 0x44, 0xb3, 0x6c, 0x6d, 0xdd, 0x28, 0x7f, 0x63, 0x47, 0x95, 0xe7, 0xd8, 0x0d,
      0x5f, 0xe2, 0x6b, 0xfc]
  if key = [] ∧ message = List.replicate 22 0x0b then prk
  else if key = prk.toList ∧ message = [1] then first
  else if key = prk.toList ∧ message = first.toList ++ [2] then second
  else Vector.replicate 32 0

/-- Words that stand for their bytes. -/
def sampleCryptoJs : CryptoJs where
  hmacSha256 := fun message key => ofBytes (sampleHmac (bytesOf key) (bytesOf message)).toList
  utf8Parse := utf8Parse
  hexParse := fun _ => ⟨[], 0⟩
  concat := fun first second => ofBytes (bytesOf first ++ bytesOf second)

/-- 42 bytes for 22 bytes of key material, without salt and info. -/
theorem hkdfSha256_conforms_sample :
    bytesOf (hkdfSha256 sampleCryptoJs (ofBytes (List.replicate 22 0x0b)) ⟨[], 0⟩ "" 42) =
      [0x8d, 0xa4, 0xe7, 0x75, 0xa5, 0x63, 0xc1, 0x8f, 0x71, 0x5f, 0x80, 0x2a, 0x06, 0x3c,
        0x5a, 0x31, 0xb8, 0xa1, 0x1f, 0x5c, 0x5e, 0xe1, 0x87, 0x9e, 0xc3, 0x45, 0x4e, 0x5f,
        0x3c, 0x73, 0x8d, 0x2d, 0x9d, 0x20, 0x13, 0x95, 0xfa, 0xa4, 0xb6, 0x1a, 0x96, 0xc8] := by
  have hDerived := (hkdfSha256_conforms sampleCryptoJs sampleHmac
    (fun _ _ => NotebookRecord.bytesOf_ofBytes _) (fun _ _ => NotebookRecord.bytesOf_ofBytes _)
    (ofBytes (List.replicate 22 0x0b)) ⟨[], 0⟩ "" 42 (by decide)).2.1
  exact Option.some.inj (hDerived.symm.trans (by decide))

end Biometric
