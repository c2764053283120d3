import StellarTimelock.Notebook.RecordFormat
import StellarTimelock.Semantics.Utf16

/-! The seed as bytes that can be wiped, and as the words that PBKDF2 reads. The
encoder is written by hand; on well-formed text it agrees with the parser that
read the seed before it. -/
namespace SeedBytes

open NotebookCrypto (WordArray)
open NotebookRecord (word packWords ofBytes utf8Parse)
open Base64 (JsString)

/-- The array that `utf8ToMutableBytes` fills, and the place of the next write. -/
structure Scratch where
  out : List UInt8
  w : Nat

/-- `out[w++] = value`. The array keeps the low eight bits, and nothing of a
write past its end. -/
def Scratch.write (t : Scratch) (value : Nat) : Scratch :=
  ⟨t.out.set t.w (UInt8.ofNat value), t.w + 1⟩

/-- The loop of `utf8ToMutableBytes` from some unit on. A unit that looks like
the first of a pair is taken together with whatever follows it; the sum is
never negative. -/
def encodeLoop : JsString → Scratch → Scratch
  | [], t => t
  | unit :: rest, t =>
      let c := unit.toNat
      if c < 0x80 then encodeLoop rest (t.write c)
      else if c < 0x800 then
        encodeLoop rest ((t.write (0xc0 ||| (c >>> 6))).write (0x80 ||| (c &&& 0x3f)))
      else
        let three := ((t.write (0xe0 ||| (c >>> 12))).write (0x80 ||| ((c >>> 6) &&& 0x3f))).write
          (0x80 ||| (c &&& 0x3f))
        match rest with
        | [] => encodeLoop [] three
        | lo :: rest =>
            if 0xd800 ≤ c ∧ c ≤ 0xdbff then
              let c := 0x10000 + ((c - 0xd800) <<< 10) + lo.toNat - 0xdc00
              encodeLoop rest ((((t.write (0xf0 ||| (c >>> 18))).write
                (0x80 ||| ((c >>> 12) &&& 0x3f))).write (0x80 ||| ((c >>> 6) &&& 0x3f))).write
                (0x80 ||| (c &&& 0x3f)))
            else encodeLoop (lo :: rest) three

/-- `new Uint8Array(s.length * 4)`. -/
def fresh (s : JsString) : Scratch := ⟨List.replicate (s.length * 4) 0, 0⟩

/-- The array and the place at the end of the loop. -/
def encoded (s : JsString) : Scratch := encodeLoop s (fresh s)

def utf8ToMutableBytes (s : JsString) : List UInt8 := (encoded s).out.take (encoded s).w

/-- A byte past the end counts as zero. -/
def wordsFromBytes (bytes : List UInt8) : WordArray :=
  ⟨(List.range' 0 ((bytes.length + 3) / 4) 4).map fun i =>
    word (bytes.getD i 0) (bytes.getD (i + 1) 0) (bytes.getD (i + 2) 0) (bytes.getD (i + 3) 0),
    bytes.length⟩

/-- `CryptoJS.enc.Utf8.parse` of any string. It throws where a unit of a pair
stands alone. -/
def parseUtf8 (s : JsString) : Option WordArray :=
  (Utf16.decode s).map fun text => utf8Parse (String.ofList text)

/-- `CryptoJS.PBKDF2`, which may throw. -/
abbrev Pbkdf2 := (password salt : WordArray) → (keySize iterations : Nat) → Option WordArray

def walletKdfSalt : String := "xlm_vault_notebook_v2_salt"

def walletKdfIterations : Nat := 10000

/-- The key that `getKey` derives. -/
def derivedKey (pbkdf2 : Pbkdf2) (secretSeed : JsString) : Option WordArray :=
  pbkdf2 (wordsFromBytes (utf8ToMutableBytes secretSeed)) (utf8Parse walletKdfSalt) (256 / 32)
    walletKdfIterations

/-- The key of a seed that is handed over as a string: it is parsed first. -/
def legacyKey (pbkdf2 : Pbkdf2) (secretSeed : JsString) : Option WordArray :=
  (parseUtf8 secretSeed).bind fun password =>
    pbkdf2 password (utf8Parse walletKdfSalt) (256 / 32) walletKdfIterations

def twoBytes (c : Nat) : List Nat := [0xc0 ||| (c >>> 6), 0x80 ||| (c &&& 0x3f)]

def threeBytes (c : Nat) : List Nat :=
  [0xe0 ||| (c >>> 12), 0x80 ||| ((c >>> 6) &&& 0x3f), 0x80 ||| (c &&& 0x3f)]

def fourBytes (c : Nat) : List Nat :=
  [0xf0 ||| (c >>> 18), 0x80 ||| ((c >>> 12) &&& 0x3f), 0x80 ||| ((c >>> 6) &&& 0x3f),
    0x80 ||| (c &&& 0x3f)]

/-- The values, in the order in which they are written. -/
def written : JsString → List Nat
  | [] => []
  | unit :: rest =>
      if unit.toNat < 0x80 then unit.toNat :: written rest
      else if unit.toNat < 0x800 then twoBytes unit.toNat ++ written rest
      else
        match rest with
        | [] => threeBytes unit.toNat
        | lo :: rest =>
            if 0xd800 ≤ unit.toNat ∧ unit.toNat ≤ 0xdbff then
              fourBytes (0x10000 + ((unit.toNat - 0xd800) <<< 10) + lo.toNat - 0xdc00) ++
                written rest
            else threeBytes unit.toNat ++ written (lo :: rest)

theorem written_one {unit : UInt16} (hOne : unit.toNat < 0x80) (rest : JsString) :
    written (unit :: rest) = unit.toNat :: written rest := by
  rw [written.eq_def]
  exact if_pos hOne

theorem written_two {unit : UInt16} (hOne : ¬ unit.toNat < 0x80) (hTwo : unit.toNat < 0x800)
    (rest : JsString) : written (unit :: rest) = twoBytes unit.toNat ++ written rest := by
  rw [written.eq_def]
  exact (if_neg hOne).trans (if_pos hTwo)

theorem written_last {unit : UInt16} (hTwo : ¬ unit.toNat < 0x800) :
    written [unit] = threeBytes unit.toNat := by
  have hOne : ¬ unit.toNat < 0x80 := by omega
  rw [written.eq_def]
  exact (if_neg hOne).trans (if_neg hTwo)

theorem written_pair {unit : UInt16} (hPair : 0xd800 ≤ unit.toNat ∧ unit.toNat ≤ 0xdbff)
    (lo : UInt16) (rest : JsString) :
    written (unit :: lo :: rest) =
      fourBytes (0x10000 + ((unit.toNat - 0xd800) <<< 10) + lo.toNat - 0xdc00) ++
        written rest := by
  have hOne : ¬ unit.toNat < 0x80 := by omega
  have hTwo : ¬ unit.toNat < 0x800 := by omega
  rw [written.eq_def]
  exact (if_neg hOne).trans ((if_neg hTwo).trans (if_pos hPair))

theorem written_three {unit : UInt16} (hTwo : ¬ unit.toNat < 0x800)
    (hPair : ¬(0xd800 ≤ unit.toNat ∧ unit.toNat ≤ 0xdbff)) (rest : JsString) :
    written (unit :: rest) = threeBytes unit.toNat ++ written rest := by
  have hOne : ¬ unit.toNat < 0x80 := by omega
  cases rest with
  | nil => rw [written_last hTwo, written, List.append_nil]
  | cons lo rest =>
      rw [written.eq_def]
      exact (if_neg hOne).trans ((if_neg hTwo).trans (if_neg hPair))

/-- The loop writes the bytes of the units one after the other; the induction
follows its own cases, a pair taking two units at once. -/
theorem encodeLoop_eq (s : JsString) (t : Scratch) :
    encodeLoop s t = (written s).foldl Scratch.write t := by
  fun_induction encodeLoop s t with
  | case1 t => rfl
  | case2 unit rest t c hOne ih =>
      rw [ih, written_one hOne]
      rfl
  | case3 unit rest t c hOne hTwo ih =>
      rw [ih, written_two hOne hTwo]
      rfl
  | case4 unit t c hOne hTwo three ih =>
      rw [ih, written_last hTwo]
      rfl
  | case5 unit t c hOne hTwo lo rest hPair c' ih =>
      rw [ih, written_pair hPair]
      rfl
  | case6 unit t c hOne hTwo three lo rest hPair ih =>
      rw [ih, written_three hTwo hPair]
      rfl

/-- At most four bytes a unit. -/
theorem written_length_le (s : JsString) : (written s).length ≤ s.length * 4 := by
  fun_induction written s with
  | case1 => rfl
  | case2 unit rest hOne ih =>
      simp only [List.length_cons]
      omega
  | case3 unit rest hOne hTwo ih =>
      simp only [List.length_append, twoBytes, List.length_cons, List.length_nil]
      omega
  | case4 unit hOne hTwo => exact Nat.le_succ 3
  | case5 unit hOne hTwo lo rest hPair ih =>
      simp only [List.length_append, fourBytes, List.length_cons, List.length_nil]
      omega
  | case6 unit hOne hTwo lo rest hPair ih =>
      simp only [List.length_append, threeBytes, List.length_cons, List.length_nil] at ih ⊢
      omega

/-- Writes that fit leave what was written before them and the zeros behind them. -/
theorem foldl_write (values : List Nat) (done : List UInt8) (room : Nat) :
    values.foldl Scratch.write ⟨done ++ List.replicate (values.length + room) 0, done.length⟩ =
      ⟨done ++ values.map UInt8.ofNat ++ List.replicate room 0,
        done.length + values.length⟩ := by
  induction values generalizing done with
  | nil => simp
  | cons value values ih =>
      have hWrite : Scratch.write
          ⟨done ++ List.replicate ((value :: values).length + room) 0, done.length⟩ value =
          ⟨(done ++ [UInt8.ofNat value]) ++ List.replicate (values.length + room) 0,
            (done ++ [UInt8.ofNat value]).length⟩ := by
        simp [Scratch.write, List.length_cons, Nat.add_right_comm, List.replicate_succ]
      rw [List.foldl_cons, hWrite, ih]
      simp [Nat.add_comm, Nat.add_left_comm]

/-- Written into a fresh array that has room, the bytes stand at its beginning
and the rest stays zero. -/
theorem foldl_write_fresh {s : JsString} {values : List Nat} (h : values.length ≤ s.length * 4) :
    values.foldl Scratch.write (fresh s) = ⟨values.map UInt8.ofNat ++
      List.replicate (s.length * 4 - values.length) 0, values.length⟩ := by
  have hFresh : fresh s = ⟨[] ++ List.replicate (values.length +
      (s.length * 4 - values.length)) 0, ([] : List UInt8).length⟩ := by
    rw [Nat.add_sub_cancel' h]
    rfl
  rw [hFresh, foldl_write]
  simp

/-- The scratch array in the end: the bytes, and zeros behind them. -/
theorem encoded_eq (s : JsString) :
    encoded s = ⟨(written s).map UInt8.ofNat ++
      List.replicate (s.length * 4 - (written s).length) 0, (written s).length⟩ := by
  rw [encoded, encodeLoop_eq, foldl_write_fresh (written_length_le s)]

/-- The array of four bytes for each unit has room, so the result is exactly
what the loop writes, with nothing cut off. -/
theorem utf8ToMutableBytes_eq (s : JsString) :
    utf8ToMutableBytes s = (written s).map UInt8.ofNat := by
  rw [utf8ToMutableBytes, encoded_eq]
  exact List.take_left' (List.length_map _)

/-- Every write is inside the array. -/
theorem write_fits {s : JsString} {before after : List Nat} {value : Nat}
    (h : written s = before ++ value :: after) :
    (before.foldl Scratch.write (fresh s)).w < s.length * 4 := by
  have hFits := written_length_le s
  rw [h, List.length_append, List.length_cons] at hFits
  have hBefore : before.length ≤ s.length * 4 := by omega
  rw [foldl_write_fresh hBefore]
  show before.length < s.length * 4
  omega

/-- The continuation bytes of UTF-8 as numbers: six bits above 0x80. -/
theorem continuation (n : Nat) : 0x80 ||| (n &&& 0x3f) = n % 0x40 + 0x80 := by
  have hLow : n &&& 0x3f = n % 0x40 := Nat.and_two_pow_sub_one_eq_mod n 6
  rw [hLow, Nat.add_comm]
  exact (Nat.two_pow_add_eq_or_of_lt (i := 7) (by omega) 1).symm

theorem leadTwo : ∀ n < 0x20, 0xc0 ||| n = n % 0x20 + 0xc0 := by decide

theorem leadThree : ∀ n < 0x10, 0xe0 ||| n = n % 0x10 + 0xe0 := by decide

theorem leadFour : ∀ n < 0x08, 0xf0 ||| n = n % 0x08 + 0xf0 := by decide

/-- For the units of one character the loop writes the UTF-8 bytes of that
character. -/
theorem written_char (c : Char) (rest : JsString) :
    (written (Utf16.encodeChar c ++ rest)).map UInt8.ofNat =
      String.utf8EncodeChar c ++ (written rest).map UInt8.ofNat := by
  have hForm := Utf16.encodeChar_encodes c
  generalize Utf16.encodeChar c = units at hForm
  have hVal : c.val.toNat = c.toNat := rfl
  rw [String.utf8EncodeChar, hVal]
  cases hForm with
  | unit unit hHigh hLow hPoint =>
      rw [List.singleton_append, ← hPoint]
      have hBound := unit.toNat_lt
      by_cases hOne : unit.toNat < 0x80
      · rw [written_one hOne, if_pos (Nat.le_of_lt_succ hOne)]
        rfl
      · rw [if_neg (by omega)]
        by_cases hTwo : unit.toNat < 0x800
        · rw [written_two hOne hTwo, if_pos (Nat.le_of_lt_succ hTwo), twoBytes, continuation,
            Nat.shiftRight_eq_div_pow, leadTwo _ (by omega)]
          rfl
        · rw [written_three hTwo hHigh, if_neg (by omega), if_pos (Nat.le_of_lt_succ hBound),
            threeBytes, continuation, continuation, Nat.shiftRight_eq_div_pow,
            Nat.shiftRight_eq_div_pow, leadThree _ (by omega)]
          rfl
  | pair high low hHigh hLow hPoint =>
      have hShift : (high.toNat - 0xd800) <<< 10 = (high.toNat - 0xd800) * 0x400 :=
        Nat.shiftLeft_eq _ _
      obtain ⟨hLeast, hMost⟩ := hHigh
      obtain ⟨hLeast', hMost'⟩ := hLow
      unfold Utf16.codePoint at hPoint
      have hJoined : 0x10000 + ((high.toNat - 0xd800) <<< 10) + low.toNat - 0xdc00 = c.toNat := by
        omega
      have hBound : 0x10000 ≤ c.toNat ∧ c.toNat < 0x110000 := by omega
      rw [List.cons_append, List.singleton_append, written_pair ⟨hLeast, hMost⟩, hJoined,
        if_neg (by omega), if_neg (by omega), if_neg (by omega), fourBytes, continuation,
        continuation, continuation, Nat.shiftRight_eq_div_pow, Nat.shiftRight_eq_div_pow,
        Nat.shiftRight_eq_div_pow, leadFour _ (by omega)]
      rfl

/-- On the units of a text the bytes are those of the standard. -/
theorem utf8ToMutableBytes_encode (text : List Char) :
    utf8ToMutableBytes (Utf16.encode text) = text.flatMap String.utf8EncodeChar := by
  rw [utf8ToMutableBytes_eq]
  induction text with
  | nil => rfl
  | cons c text ih => rw [Utf16.encode_cons, written_char, ih, List.flatMap_cons]

theorem toUTF8_ofList (text : List Char) :
    (String.ofList text).toUTF8.data.toList = text.flatMap String.utf8EncodeChar := by
  simp [List.utf8Encode]

theorem wordsFromBytes_cons (a b c d : UInt8) (rest : List UInt8) :
    (wordsFromBytes (a :: b :: c :: d :: rest)).words =
      word a b c d :: (wordsFromBytes rest).words := by
  have hRounds : ((a :: b :: c :: d :: rest).length + 3) / 4 = (rest.length + 3) / 4 + 1 := by
    simp only [List.length_cons]
    omega
  have hRest : List.range' 4 ((rest.length + 3) / 4) 4 =
      (List.range' 0 ((rest.length + 3) / 4) 4).map (4 + ·) := by
    rw [List.map_add_range', Nat.add_zero]
  simp only [wordsFromBytes, hRounds, List.range'_succ, List.map_cons, Nat.zero_add, hRest,
    List.map_map, List.getD_cons_zero, List.getD_cons_succ]
  apply congrArg (word a b c d :: ·)
  apply List.map_congr_left
  intro i _
  have hNext : 4 + i = i + 4 := Nat.add_comm 4 i
  rw [Function.comp_apply, hNext]
  rfl

/-- The rounds of the packer are the words of the bytes in big-endian order. -/
theorem wordsFromBytes_eq (bytes : List UInt8) : wordsFromBytes bytes = ofBytes bytes := by
  have hWords : (wordsFromBytes bytes).words = packWords bytes := by
    fun_induction packWords bytes with
    | case1 a b c d rest ih => rw [wordsFromBytes_cons, ih]
    | case2 a b c => simp [wordsFromBytes]
    | case3 a b => simp [wordsFromBytes]
    | case4 a => simp [wordsFromBytes]
    | case5 => rfl
  rw [ofBytes, ← hWords]
  rfl

/-- A word as the signed number that it is in the source. -/
theorem wordsFromBytes_toInt (bytes : List UInt8) {j : Nat} (hj : j < (bytes.length + 3) / 4) :
    (wordsFromBytes bytes).words[j]?.map BitVec.toInt =
      some (Int.bmod (((bytes.getD (4 * j) 0).toNat * 2 ^ 24 +
        (bytes.getD (4 * j + 1) 0).toNat * 2 ^ 16 + (bytes.getD (4 * j + 2) 0).toNat * 2 ^ 8 +
        (bytes.getD (4 * j + 3) 0).toNat : Nat) : Int) (2 ^ 32)) := by
  rw [wordsFromBytes, List.getElem?_map, List.getElem?_range' hj]
  simp only [Option.map_some, Nat.zero_add]
  rw [BitVec.toInt_eq_toNat_bmod, NotebookRecord.word_toNat]

/-- The legacy parser and the new path agree on well-formed text. -/
theorem parseUtf8_encode (text : List Char) :
    parseUtf8 (Utf16.encode text) =
      some (wordsFromBytes (utf8ToMutableBytes (Utf16.encode text))) := by
  rw [parseUtf8, Utf16.decode_encode, wordsFromBytes_eq, utf8ToMutableBytes_encode]
  simp only [Option.map_some, utf8Parse, toUTF8_ofList]

/-- For every text without lone surrogates the key is the one that
`CryptoJS.PBKDF2` derives from the string itself. -/
theorem derivedKey_encode (pbkdf2 : Pbkdf2) (text : List Char) :
    derivedKey pbkdf2 (Utf16.encode text) = legacyKey pbkdf2 (Utf16.encode text) := by
  rw [legacyKey, parseUtf8_encode]
  rfl

/-- Different well-formed seeds have different bytes, so no two of them share a
key for the reason of their encoding. -/
theorem utf8ToMutableBytes_injOn {s s' : JsString} (h : Utf16.WellFormed s)
    (h' : Utf16.WellFormed s') (hBytes : utf8ToMutableBytes s = utf8ToMutableBytes s') :
    s = s' := by
  obtain ⟨text, rfl⟩ := h
  obtain ⟨text', rfl⟩ := h'
  rw [utf8ToMutableBytes_encode, utf8ToMutableBytes_encode, ← toUTF8_ofList,
    ← toUTF8_ofList] at hBytes
  have hText : (String.ofList text).toByteArray = (String.ofList text').toByteArray :=
    ByteArray.ext (Array.toList_inj.mp hBytes)
  rw [String.ofList_injective (String.toByteArray_inj.mp hText)]

/-- The words of a well-formed seed are those of the legacy parser: its standard
UTF-8 bytes, four to a signed word in big-endian order. So the derived key stays
the same, different seeds have different bytes, and no write misses the array. -/
theorem kdf_input_unchanged (s : JsString) (hWellFormed : Utf16.WellFormed s) :
    let bytes := utf8ToMutableBytes s
    (∃ text : String, Utf16.encode text.toList = s ∧ bytes = text.toUTF8.data.toList) ∧
    parseUtf8 s = some (wordsFromBytes bytes) ∧
    (wordsFromBytes bytes).sigBytes = bytes.length ∧
    (wordsFromBytes bytes).words.length = (bytes.length + 3) / 4 ∧
    (∀ j < (bytes.length + 3) / 4, (wordsFromBytes bytes).words[j]?.map BitVec.toInt =
      some (Int.bmod (((bytes.getD (4 * j) 0).toNat * 2 ^ 24 +
        (bytes.getD (4 * j + 1) 0).toNat * 2 ^ 16 + (bytes.getD (4 * j + 2) 0).toNat * 2 ^ 8 +
        (bytes.getD (4 * j + 3) 0).toNat : Nat) : Int) (2 ^ 32))) ∧
    (∀ pbkdf2 : Pbkdf2, derivedKey pbkdf2 s = legacyKey pbkdf2 s) ∧
    (∀ s', Utf16.WellFormed s' → utf8ToMutableBytes s' = bytes → s' = s) ∧
    encoded s = (written s).foldl Scratch.write (fresh s) ∧
    ∀ before value after, written s = before ++ value :: after →
      (before.foldl Scratch.write (fresh s)).w < s.length * 4 := by
  intro bytes
  have hParsed : parseUtf8 s = some (wordsFromBytes bytes) := by
    obtain ⟨text, rfl⟩ := hWellFormed
    exact parseUtf8_encode text
  refine ⟨?_, hParsed, rfl, ?_, fun j hj => wordsFromBytes_toInt bytes hj, ?_, ?_,
    encodeLoop_eq s (fresh s), ?_⟩
  · obtain ⟨text, rfl⟩ := hWellFormed
    refine ⟨String.ofList text, ?_, ?_⟩
    · rw [String.toList_ofList]
    · exact (utf8ToMutableBytes_encode text).trans (toUTF8_ofList text).symm
  · rw [wordsFromBytes, List.length_map, List.length_range']
  · intro pbkdf2
    obtain ⟨text, rfl⟩ := hWellFormed
    exact derivedKey_encode pbkdf2 text
  · intro s' hOther hBytes
    exact utf8ToMutableBytes_injOn hOther hWellFormed hBytes
  · intro before value after hWritten
    exact write_fits hWritten

/-- Characters of one, two, three and four bytes. -/
theorem kdf_input_unchanged_mixed :
    parseUtf8 [0x41, 0xe9, 0x20ac, 0xd83d, 0xde00] =
      some (wordsFromBytes [0x41, 0xc3, 0xa9, 0xe2, 0x82, 0xac, 0xf0, 0x9f, 0x98, 0x80]) :=
  (kdf_input_unchanged [0x41, 0xe9, 0x20ac, 0xd83d, 0xde00]
    ⟨['A', 'é', '€', '😀'], by decide⟩).2.1

end SeedBytes
