import StellarTimelock.Notebook.SeedBytes

/-! Every mutable copy of the seed that the derivation of a key allocates, as a
cell of a memory. The scratch array of the encoder is a copy, too, and nobody
wipes it. -/
namespace SeedCopies

open NotebookCrypto (WordArray wipeWordArray)
open NotebookRecord (utf8Parse)
open SeedBytes
open Base64 (JsString)

/-- Where a cell is allocated. -/
inductive Site where
  /-- `new Uint8Array` in `utf8ToMutableBytes`. -/
  | uint8Array
  /-- The array that its `slice` returns. -/
  | slice
  /-- The word array of `wordsFromBytes`. -/
  | wordArray
  /-- The word array of the salt, which is public. -/
  | salt
  /-- The derived key. -/
  | derived
  deriving DecidableEq, Repr

/-- The buffers that the bytes of the seed are put into. -/
def Site.CarriesSeed : Site → Prop
  | .uint8Array | .slice | .wordArray => True
  | .salt | .derived => False

inductive Buffer where
  | bytes (content : List UInt8)
  | words (content : WordArray)

structure Cell where
  site : Site
  buffer : Buffer

/-- The cells, the arrays whose second wiping is scheduled, and the cached key. -/
structure Memory where
  cells : List Cell
  timers : List Nat
  keyWordArrayCache : Option Nat

def Memory.alloc (m : Memory) (site : Site) (buffer : Buffer) : Memory × Nat :=
  ({ m with cells := m.cells ++ [⟨site, buffer⟩] }, m.cells.length)

def Memory.put (m : Memory) (cell : Nat) (buffer : Buffer) : Memory :=
  { m with cells := m.cells.modify cell fun c => { c with buffer := buffer } }

def Memory.bytes (m : Memory) (cell : Nat) : List UInt8 :=
  match m.cells[cell]? with
  | some ⟨_, .bytes content⟩ => content
  | _ => []

def Memory.words (m : Memory) (cell : Nat) : WordArray :=
  match m.cells[cell]? with
  | some ⟨_, .words content⟩ => content
  | _ => ⟨[], 0⟩

/-- `fill(0)`. -/
def Memory.fill (m : Memory) (buf : Nat) : Memory :=
  m.put buf (.bytes ((m.bytes buf).map fun _ => 0))

def wipeBytes (buf : Option Nat) (m : Memory) : Memory :=
  match buf with
  | none => m
  | some buf => { m.fill buf with timers := m.timers ++ [buf] }

def wipeWordArray (wa : Option Nat) (m : Memory) : Memory :=
  match wa with
  | none => m
  | some wa => m.put wa (.words (NotebookCrypto.wipeWordArray (m.words wa)))

def utf8ToMutableBytes (s : JsString) (m : Memory) : Memory × Nat :=
  let (m, out) := m.alloc .uint8Array (.bytes (List.replicate (s.length * 4) 0))
  let t := encodeLoop s ⟨m.bytes out, 0⟩
  (m.put out (.bytes t.out)).alloc .slice (.bytes (t.out.take t.w))

def wordsFromBytes (bytes : Nat) (m : Memory) : Memory × Nat :=
  m.alloc .wordArray (.words (SeedBytes.wordsFromBytes (m.bytes bytes)))

/-- The `try` of `getKey`; no key is an exception. -/
def tryDerive (pbkdf2 : Pbkdf2) (seedWords saltWords : Nat) (m : Memory) : Memory × Option Nat :=
  match pbkdf2 (m.words seedWords) (m.words saltWords) (256 / 32) walletKdfIterations with
  | none => (m, none)
  | some key =>
      let (m, derived) := m.alloc .derived (.words key)
      ({ m with keyWordArrayCache := some derived }, some derived)

/-- The wallet path of `getKey`. The last line is its `finally`. -/
def getKey (pbkdf2 : Pbkdf2) (secretSeed : JsString) (m : Memory) : Memory × Option Nat :=
  let (m, seedBytes) := utf8ToMutableBytes secretSeed m
  let (m, seedWords) := wordsFromBytes seedBytes m
  let (m, saltWords) := m.alloc .salt (.words (utf8Parse walletKdfSalt))
  let (m, derived) := tryDerive pbkdf2 seedWords saltWords m
  (wipeBytes (some seedBytes) (wipeWordArray (some seedWords) m), derived)

/-- The scheduled second wiping. -/
def Memory.laterPasses (m : Memory) (scheduled : List Nat) : Memory :=
  scheduled.foldl Memory.fill m

/-- The cells that were allocated between the two. -/
def allocated (before after : Memory) : List Cell := after.cells.drop before.cells.length

def Cell.Zeroed (c : Cell) : Prop :=
  match c.buffer with
  | .bytes content => ∀ byte ∈ content, byte = 0
  | .words content => ∀ word ∈ content.words, word = 0

/-- Every buffer that the seed was put into contains only zeros. -/
def SeedWiped (before after : Memory) : Prop :=
  ∀ c ∈ allocated before after, c.site.CarriesSeed → c.Zeroed

/-- Every cell but the derived key contains only zeros. -/
def AllWiped (before after : Memory) : Prop :=
  ∀ c ∈ allocated before after, c.site ≠ .derived → c.Zeroed

def Memory.extended (m : Memory) (path : List Cell) : Memory :=
  { m with cells := m.cells ++ path }

/-- Allocating in a memory with some new cells adds one more behind them. -/
theorem extended_alloc (m : Memory) (path : List Cell) (site : Site) (buffer : Buffer) :
    (m.extended path).alloc site buffer =
      (m.extended (path ++ [⟨site, buffer⟩]), m.cells.length + path.length) := by
  simp [Memory.alloc, Memory.extended]

theorem modify_append (cells path : List Cell) (k : Nat) (f : Cell → Cell) :
    (cells ++ path).modify (cells.length + k) f = cells ++ path.modify k f := by
  induction cells with
  | nil => simp
  | cons c cells ih => simp [Nat.add_right_comm, ih]

/-- Writing to a new cell changes that cell and leaves the older ones alone. -/
theorem extended_put (m : Memory) (path : List Cell) (k : Nat) (buffer : Buffer) :
    (m.extended path).put (m.cells.length + k) buffer =
      m.extended (path.modify k fun c => { c with buffer := buffer }) := by
  simp [Memory.put, Memory.extended, modify_append]

theorem extended_getElem? (m : Memory) (path : List Cell) (k : Nat) :
    (m.extended path).cells[m.cells.length + k]? = path[k]? := by
  rw [Memory.extended, List.getElem?_append_right (Nat.le_add_right _ _), Nat.add_sub_cancel_left]

/-- The bytes of a new cell are those that were put there. -/
theorem extended_bytes {m : Memory} {path : List Cell} {k : Nat} {site : Site}
    {content : List UInt8} (h : path[k]? = some ⟨site, .bytes content⟩) :
    (m.extended path).bytes (m.cells.length + k) = content := by
  simp [Memory.bytes, extended_getElem?, h]

theorem extended_words {m : Memory} {path : List Cell} {k : Nat} {site : Site}
    {content : WordArray} (h : path[k]? = some ⟨site, .words content⟩) :
    (m.extended path).words (m.cells.length + k) = content := by
  simp [Memory.words, extended_getElem?, h]

section Stages

variable (secretSeed : JsString)

/-- After `utf8ToMutableBytes`. -/
def encodedCells : List Cell :=
  [⟨.uint8Array, .bytes (encoded secretSeed).out⟩,
    ⟨.slice, .bytes (SeedBytes.utf8ToMutableBytes secretSeed)⟩]

def seedWords : WordArray :=
  SeedBytes.wordsFromBytes (SeedBytes.utf8ToMutableBytes secretSeed)

/-- When PBKDF2 is called. -/
def derivingCells : List Cell :=
  encodedCells secretSeed ++ [⟨.wordArray, .words (seedWords secretSeed)⟩] ++
    [⟨.salt, .words (utf8Parse walletKdfSalt)⟩]

/-- When the path is left. -/
def leftCells (key : Option WordArray) : List Cell :=
  [⟨.uint8Array, .bytes (encoded secretSeed).out⟩,
    ⟨.slice, .bytes ((SeedBytes.utf8ToMutableBytes secretSeed).map fun _ => 0)⟩,
    ⟨.wordArray, .words (NotebookCrypto.wipeWordArray (seedWords secretSeed))⟩,
    ⟨.salt, .words (utf8Parse walletKdfSalt)⟩] ++
  key.toList.map fun key => ⟨.derived, .words key⟩

end Stages

/-- The encoding of a seed leaves two buffers: the scratch array, four bytes for
each unit, and the slice of it that is returned. -/
theorem utf8ToMutableBytes_eq (s : JsString) (m : Memory) :
    utf8ToMutableBytes s m = (m.extended (encodedCells s), m.cells.length + 1) := by
  have hBytes : (m.extended [⟨.uint8Array, .bytes (fresh s).out⟩]).bytes m.cells.length =
      (fresh s).out :=
    extended_bytes (show [_][0]? = some _ from rfl)
  have hPut : (m.extended [⟨.uint8Array, .bytes (fresh s).out⟩]).put m.cells.length
      (.bytes (encoded s).out) = m.extended [⟨.uint8Array, .bytes (encoded s).out⟩] :=
    extended_put m [⟨.uint8Array, .bytes (fresh s).out⟩] 0 (.bytes (encoded s).out)
  have hAlloc : m.alloc .uint8Array (.bytes (List.replicate (s.length * 4) 0)) =
      (m.extended [⟨.uint8Array, .bytes (fresh s).out⟩], m.cells.length) := rfl
  rw [utf8ToMutableBytes, hAlloc]
  simp only [hBytes]
  show ((m.extended [⟨.uint8Array, .bytes (fresh s).out⟩]).put m.cells.length
    (.bytes (encoded s).out)).alloc .slice (.bytes (SeedBytes.utf8ToMutableBytes s)) = _
  rw [hPut, extended_alloc]
  rfl

/-- Packing the slice into words adds the word array, a third copy of the seed.
-/
theorem wordsFromBytes_eq (s : JsString) (m : Memory) :
    wordsFromBytes (m.cells.length + 1) (m.extended (encodedCells s)) =
      (m.extended (encodedCells s ++ [⟨.wordArray, .words (seedWords s)⟩]),
        m.cells.length + 2) := by
  have hBytes : (encodedCells s)[1]? =
      some ⟨.slice, .bytes (SeedBytes.utf8ToMutableBytes s)⟩ := rfl
  rw [wordsFromBytes, extended_bytes hBytes, extended_alloc]
  rfl

/-- The `finally` of the path, after PBKDF2 has returned a key or thrown. -/
theorem wipe_eq (s : JsString) (key : Option WordArray) (m : Memory) :
    wipeBytes (some (m.cells.length + 1)) (wipeWordArray (some (m.cells.length + 2))
      (m.extended (derivingCells s ++ key.toList.map fun key => ⟨.derived, .words key⟩))) =
    { m.extended (leftCells s key) with timers := m.timers ++ [m.cells.length + 1] } := by
  rw [wipeWordArray, extended_words (show (derivingCells s ++ _)[2]? = some _ from rfl),
    extended_put, wipeBytes, Memory.fill, extended_bytes (show _[1]? = some _ from rfl),
    extended_put]
  rfl

theorem alloc_salt_eq (s : JsString) (m : Memory) :
    (m.extended (encodedCells s ++ [⟨.wordArray, .words (seedWords s)⟩])).alloc .salt
        (.words (utf8Parse walletKdfSalt)) =
      (m.extended (derivingCells s), m.cells.length + 3) := extended_alloc _ _ _ _

/-- The derivation itself adds the key, or throws and adds nothing. -/
theorem tryDerive_eq (pbkdf2 : Pbkdf2) (s : JsString) (m : Memory) :
    tryDerive pbkdf2 (m.cells.length + 2) (m.cells.length + 3) (m.extended (derivingCells s)) =
      match derivedKey pbkdf2 s with
      | none => (m.extended (derivingCells s), none)
      | some key =>
          (Memory.extended { m with keyWordArrayCache := some (m.cells.length + 4) }
            (derivingCells s ++ [⟨.derived, .words key⟩]), some (m.cells.length + 4)) := by
  have hPassword : (derivingCells s)[2]? = some ⟨.wordArray, .words (seedWords s)⟩ := rfl
  have hSalt : (derivingCells s)[3]? = some ⟨.salt, .words (utf8Parse walletKdfSalt)⟩ := rfl
  have hKey : pbkdf2 (seedWords s) (utf8Parse walletKdfSalt) (256 / 32) walletKdfIterations =
      derivedKey pbkdf2 s := rfl
  rw [tryDerive, extended_words hPassword, extended_words hSalt, hKey]
  cases derivedKey pbkdf2 s with
  | none => rfl
  | some key =>
      simp only [extended_alloc]
      rfl

/-- Both exits: the slice and the words are wiped, and nothing else is. -/
theorem getKey_eq (pbkdf2 : Pbkdf2) (secretSeed : JsString) (m : Memory) :
    getKey pbkdf2 secretSeed m =
      ({ cells := m.cells ++ leftCells secretSeed (derivedKey pbkdf2 secretSeed)
         timers := m.timers ++ [m.cells.length + 1]
         keyWordArrayCache := ((derivedKey pbkdf2 secretSeed).map fun _ => m.cells.length + 4).or
           m.keyWordArrayCache },
        (derivedKey pbkdf2 secretSeed).map fun _ => m.cells.length + 4) := by
  rw [getKey, utf8ToMutableBytes_eq]
  simp only [wordsFromBytes_eq, alloc_salt_eq, tryDerive_eq]
  cases derivedKey pbkdf2 secretSeed with
  | none =>
      have hWiped := wipe_eq secretSeed none m
      rw [Option.toList_none, List.map_nil, List.append_nil] at hWiped
      simp only [hWiped]
      rfl
  | some key =>
      have hWiped := wipe_eq secretSeed (some key)
        { m with keyWordArrayCache := some (m.cells.length + 4) }
      rw [Option.toList_some, List.map_singleton] at hWiped
      simp only [hWiped]
      rfl

theorem leadTwo_ne : ∀ n < 0x20, UInt8.ofNat (0xc0 ||| n) ≠ 0 := by decide

theorem leadThree_ne : ∀ n < 0x10, UInt8.ofNat (0xe0 ||| n) ≠ 0 := by decide

theorem leadFour_ne : ∀ n < 0x08, UInt8.ofNat (0xf0 ||| n) ≠ 0 := by decide

theorem threeBytes_ne (unit : UInt16) (values : List Nat) :
    ¬ ∀ value ∈ threeBytes unit.toNat ++ values, UInt8.ofNat value = 0 := by
  intro h
  have hBound := unit.toNat_lt
  have hLead := h (0xe0 ||| (unit.toNat >>> 12)) (List.mem_append_left _ List.mem_cons_self)
  rw [Nat.shiftRight_eq_div_pow] at hLead
  exact leadThree_ne _ (by omega) hLead

/-- Only the unit zero is written as zeros. -/
theorem written_zero_iff (s : JsString) :
    (∀ value ∈ written s, UInt8.ofNat value = 0) ↔ ∀ unit ∈ s, unit = 0 := by
  have hUnit {unit : UInt16} {rest : JsString} (h : ¬ unit.toNat < 0x80) :
      ¬ ∀ other ∈ unit :: rest, other = 0 := by
    intro hZero
    rw [hZero unit List.mem_cons_self] at h
    exact h (by decide)
  fun_induction written s with
  | case1 => simp
  | case2 unit rest hOne ih =>
      have hZero : UInt8.ofNat unit.toNat = 0 ↔ unit = 0 := by
        rw [← UInt8.toNat_inj, ← UInt16.toNat_inj, UInt8.toNat_ofNat',
          Nat.mod_eq_of_lt (by omega)]
        rfl
      rw [List.forall_mem_cons, List.forall_mem_cons, hZero]
      exact and_congr_right fun _ => ih
  | case3 unit rest hOne hTwo ih =>
      refine iff_of_false ?_ (hUnit hOne)
      intro h
      have hLead := h (0xc0 ||| (unit.toNat >>> 6)) (List.mem_append_left _ List.mem_cons_self)
      rw [Nat.shiftRight_eq_div_pow] at hLead
      exact leadTwo_ne _ (by omega) hLead
  | case4 unit hOne hTwo =>
      refine iff_of_false ?_ (hUnit hOne)
      simpa using threeBytes_ne unit []
  | case5 unit hOne hTwo lo rest hPair ih =>
      refine iff_of_false ?_ (hUnit hOne)
      intro h
      have hLow := lo.toNat_lt
      have hLead := h _ (List.mem_append_left _ List.mem_cons_self)
      rw [Nat.shiftRight_eq_div_pow, Nat.shiftLeft_eq] at hLead
      exact leadFour_ne _ (by omega) hLead
  | case6 unit hOne hTwo lo rest hPair ih =>
      exact iff_of_false (threeBytes_ne unit _) (hUnit hOne)

/-- The scratch array is never wiped, and holds nothing of the seed exactly if
every unit of the seed is zero. -/
theorem scratch_zero_iff (s : JsString) :
    (∀ byte ∈ (encoded s).out, byte = 0) ↔ ∀ unit ∈ s, unit = 0 := by
  rw [encoded_eq, ← written_zero_iff, List.forall_mem_append]
  simp only [List.forall_mem_map]
  exact and_iff_left fun byte h => List.eq_of_mem_replicate h

theorem zeroed_map (content : List UInt8) :
    Cell.Zeroed ⟨.slice, .bytes (content.map fun _ => 0)⟩ := by
  intro byte h
  obtain ⟨_, -, rfl⟩ := List.mem_map.mp h
  rfl

theorem zeroed_wipe (content : WordArray) :
    Cell.Zeroed ⟨.wordArray, .words (NotebookCrypto.wipeWordArray content)⟩ := by
  intro word h
  obtain ⟨_, -, rfl⟩ := List.mem_map.mp h
  rfl

theorem allocated_of_cells {m after : Memory} {path : List Cell}
    (h : after.cells = m.cells ++ path) : allocated m after = path := by
  rw [allocated, h, List.drop_left]

/-- The scratch array, what is wiped, and what never held the seed. -/
theorem leftCells_cases {secretSeed : JsString} {key : Option WordArray} {c : Cell}
    (h : c ∈ leftCells secretSeed key) :
    c = ⟨.uint8Array, .bytes (encoded secretSeed).out⟩ ∨ c.Zeroed ∨
      c.site = .salt ∨ c.site = .derived := by
  rcases List.mem_append.mp h with h | h
  · simp only [List.mem_cons, List.not_mem_nil, or_false] at h
    rcases h with rfl | rfl | rfl | rfl
    · exact Or.inl rfl
    · exact Or.inr (Or.inl (zeroed_map _))
    · exact Or.inr (Or.inl (zeroed_wipe _))
    · exact Or.inr (Or.inr (Or.inl rfl))
  · obtain ⟨_, -, rfl⟩ := List.mem_map.mp h
    exact Or.inr (Or.inr (Or.inr rfl))

/-- The arrays that the path itself gets to see are wiped. -/
theorem leftCells_handed_zeroed (secretSeed : JsString) (key : Option WordArray) :
    ∀ c ∈ leftCells secretSeed key, c.site = .slice ∨ c.site = .wordArray → c.Zeroed := by
  intro c hc hSite
  rcases leftCells_cases hc with rfl | hZeroed | hSalt | hDerived
  · simp at hSite
  · exact hZeroed
  · simp [hSalt] at hSite
  · simp [hDerived] at hSite

/-- Of the cells that a derivation leaves, those that carried the seed are wiped
exactly if every unit of the seed is zero: the slice and the words are, the
scratch array is not. -/
theorem leftCells_wiped_iff (secretSeed : JsString) (key : Option WordArray) :
    (∀ c ∈ leftCells secretSeed key, c.site.CarriesSeed → c.Zeroed) ↔
      ∀ unit ∈ secretSeed, unit = 0 := by
  rw [← scratch_zero_iff]
  constructor
  · intro h
    exact h ⟨.uint8Array, .bytes (encoded secretSeed).out⟩ List.mem_cons_self trivial
  · intro h c hc hCarries
    rcases leftCells_cases hc with rfl | hZeroed | hSalt | hDerived
    · exact h
    · exact hZeroed
    · rw [hSalt] at hCarries
      exact hCarries.elim
    · rw [hDerived] at hCarries
      exact hCarries.elim

/-- The first word is `xlm_`. -/
theorem salt_not_zeroed : ¬ Cell.Zeroed ⟨.salt, .words (utf8Parse walletKdfSalt)⟩ := by
  intro h
  have hWord : (0x786c6d5f : BitVec 32) ∈ (utf8Parse walletKdfSalt).words := by decide
  exact absurd (h _ hWord) (by decide)

/-- The second passes of a derivation find zeros. -/
theorem laterPasses_cells (pbkdf2 : Pbkdf2) (secretSeed : JsString) (m : Memory) :
    let after := (getKey pbkdf2 secretSeed m).1
    (after.laterPasses (after.timers.drop m.timers.length)).cells =
      m.cells ++ leftCells secretSeed (derivedKey pbkdf2 secretSeed) := by
  intro after
  let cells := leftCells secretSeed (derivedKey pbkdf2 secretSeed)
  have hScheduled : after.timers.drop m.timers.length = [m.cells.length + 1] := by
    show (getKey pbkdf2 secretSeed m).1.timers.drop _ = _
    rw [getKey_eq]
    exact List.drop_left
  have hCells : after.cells = (m.extended cells).cells := by
    show (getKey pbkdf2 secretSeed m).1.cells = _
    rw [getKey_eq]
    rfl
  have hBytes : (m.extended cells).bytes (m.cells.length + 1) =
      (SeedBytes.utf8ToMutableBytes secretSeed).map fun _ => 0 :=
    extended_bytes (show cells[1]? = some _ from rfl)
  have hFilled : ((m.extended cells).fill (m.cells.length + 1)).cells =
      (m.extended cells).cells := by
    rw [Memory.fill, hBytes, List.map_map, extended_put]
    rfl
  have hSame : (after.fill (m.cells.length + 1)).cells =
      ((m.extended cells).fill (m.cells.length + 1)).cells := by
    simp only [Memory.fill, Memory.put, Memory.bytes, hCells]
  rw [hScheduled]
  exact hSame.trans hFilled

/-- However the derivation ends, and also after the second passes, all buffers
that the seed was put into contain only zeros exactly if the seed itself has no
unit but zero: the slice and the words are wiped, the scratch array never is.
The salt, which is public, is not wiped either. -/
theorem seed_wiped_iff (pbkdf2 : Pbkdf2) (secretSeed : JsString) (m : Memory) :
    let after := (getKey pbkdf2 secretSeed m).1
    let later := after.laterPasses (after.timers.drop m.timers.length)
    (SeedWiped m after ↔ ∀ unit ∈ secretSeed, unit = 0) ∧
    (SeedWiped m later ↔ ∀ unit ∈ secretSeed, unit = 0) ∧
    (∀ c ∈ allocated m after, c.site = .slice ∨ c.site = .wordArray → c.Zeroed) ∧
    ¬ AllWiped m after := by
  intro after later
  have hAfter : allocated m after = leftCells secretSeed (derivedKey pbkdf2 secretSeed) :=
    allocated_of_cells (congrArg (·.1.cells) (getKey_eq pbkdf2 secretSeed m))
  have hLater : allocated m later = leftCells secretSeed (derivedKey pbkdf2 secretSeed) :=
    allocated_of_cells (laterPasses_cells pbkdf2 secretSeed m)
  refine ⟨?_, ?_, ?_, ?_⟩
  · rw [SeedWiped, hAfter, leftCells_wiped_iff]
  · rw [SeedWiped, hLater, leftCells_wiped_iff]
  · rw [hAfter]
    exact leftCells_handed_zeroed secretSeed _
  · intro h
    rw [AllWiped, hAfter] at h
    exact salt_not_zeroed (h _ (by simp [leftCells]) (by decide))

/-- A memory without cells. -/
def emptyMemory : Memory := ⟨[], [], none⟩

/-- The seed `SB` stays in the scratch array, whether PBKDF2 returns or throws. -/
theorem seed_stays_in_scratch :
    (getKey (fun _ _ _ _ => some ⟨[7], 4⟩) [83, 66] emptyMemory).1.bytes 0 =
        [83, 66, 0, 0, 0, 0, 0, 0] ∧
      (getKey (fun _ _ _ _ => none) [83, 66] emptyMemory).1.bytes 0 =
        [83, 66, 0, 0, 0, 0, 0, 0] ∧
      ¬ ∀ pbkdf2 secretSeed m, secretSeed ≠ [] →
        SeedWiped m (getKey pbkdf2 secretSeed m).1 := by
  refine ⟨by decide, by decide, ?_⟩
  intro hWiped
  have hScratch := hWiped (fun _ _ _ _ => none) [83, 66] emptyMemory (by decide)
    ⟨.uint8Array, .bytes [83, 66, 0, 0, 0, 0, 0, 0]⟩ List.mem_cons_self trivial
  exact absurd (hScratch 83 List.mem_cons_self) (by decide)

/-- The content of the cell that is returned is the derived key. -/
theorem getKey_content (pbkdf2 : Pbkdf2) (secretSeed : JsString) (m : Memory) :
    (getKey pbkdf2 secretSeed m).2.map (getKey pbkdf2 secretSeed m).1.words =
      derivedKey pbkdf2 secretSeed := by
  rw [getKey_eq]
  cases derivedKey pbkdf2 secretSeed with
  | none => rfl
  | some key =>
      exact congrArg some (extended_words (show (leftCells secretSeed (some key))[4]? = some _
        from rfl))

/-- Where `getKey` finds a seed and no cached key, it goes on as the derivation
does: with an exception, or with a key of this content. -/
theorem getKey_refines {P : NotebookCrypto.Primitives} {pbkdf2 : Pbkdf2}
    (hPbkdf2 : ∀ seed, P.pbkdf2 seed = legacyKey pbkdf2 (Utf16.encode seed.toList))
    {s : NotebookCrypto.Shared} {seed : String} (hCache : s.keyWordArrayCache = none)
    (hSeed : s.seed = some seed) (task : NotebookCrypto.Task) (m : Memory) :
    let path := getKey pbkdf2 (Utf16.encode seed.toList) m
    (path.2 = none → NotebookCrypto.getKey P s task = ⟨s, .finished none, .quiet⟩) ∧
    ∀ cell, path.2 = some cell →
      let key := path.1.words cell
      NotebookCrypto.getKey P s task =
        ⟨s.cacheKey key, NotebookCrypto.hold (s.cacheKey key) task s.heap.length, .quiet⟩ := by
  intro path
  have hContent : path.2.map path.1.words = P.pbkdf2 seed := by
    rw [hPbkdf2, ← derivedKey_encode]
    exact getKey_content _ _ m
  constructor
  · intro hThrows
    rw [hThrows] at hContent
    have hNone : P.pbkdf2 seed = none := hContent.symm
    simp only [NotebookCrypto.getKey, hCache, hSeed, hNone]
  · intro cell hReturns key
    rw [hReturns] at hContent
    have hSome : P.pbkdf2 seed = some key := hContent.symm
    simp only [NotebookCrypto.getKey, hCache, hSeed, hSome]

end SeedCopies
