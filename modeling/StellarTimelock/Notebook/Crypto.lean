import StellarTimelock.Semantics.Interleaving

/-! The notebook's encryption layer as concurrent calls over the module's
variables. Key objects are cells of a heap, so that the cache and a suspended
call can hold the same one. Every `await` is a suspension point. -/
namespace NotebookCrypto

open Interleaving

/-- A `CryptoJS` word array: 32-bit words and the number of bytes that count. -/
structure WordArray where
  words : List (BitVec 32)
  sigBytes : Nat
  deriving DecidableEq

/-- What `wipeWordArray` makes of a word array. -/
def wipeWordArray (wa : WordArray) : WordArray := ⟨wa.words.map fun _ => 0, 0⟩

structure Wallet where
  publicKey : String
  secretSeed : String
  deriving DecidableEq

/-- Where the code runs; in a browser `localStorage` may be missing. -/
inductive Platform where
  | native
  | web (localStorage : Bool)
  deriving DecidableEq, Repr

/-- The cryptography the layer is built on. -/
structure Primitives where
  platform : Platform
  /-- The PBKDF2 key of a seed under the fixed salt and iteration count, unless
  the derivation throws. -/
  pbkdf2 : String → Option WordArray
  /-- `CryptoJS.enc.Base64.parse`. -/
  base64Parse : String → WordArray
  /-- The record made of an IV and a plaintext under a key. -/
  aesEncrypt : (key : WordArray) → (iv plaintext : String) → String
  /-- The text read from a record under a key; `none` is an exception. -/
  aesDecrypt : (key : WordArray) → (payload : String) → Option String

/-- The module's variables, the heap of key objects and the stored master key. -/
structure Shared where
  heap : List WordArray
  keyWordArrayCache : Option Nat
  activeWalletForCrypto : Option Wallet
  masterKeyStore : Option String
  deriving DecidableEq

/-- The registered seed as `getKey` tests it: an empty one does not count. -/
def Shared.seed (s : Shared) : Option String :=
  (s.activeWalletForCrypto.map (·.secretSeed)).filter (· ≠ "")

/-- Where a call is suspended while it has no key yet. -/
inductive KeyPoint where
  /-- `getItemAsync` is under way. -/
  | reading
  | read (found : Option String)
  /-- `getRandomBytesAsync(32)` is under way. -/
  | generating
  | generated (created : String)
  /-- `setItemAsync` is under way. -/
  | writing (created : String)
  | written (created : String)
  /-- `readOrCreateMasterKey` has returned and `getKey` is to go on. -/
  | returned (b64 : String)
  deriving DecidableEq

inductive Task where
  | encrypt (plaintext : String)
  | decrypt (payload : String)
  deriving DecidableEq

/-- A key as a call holds it. Its content and the registered seed at the moment
`getKey` returned it are kept for later comparison; the program has neither. -/
structure Held where
  cell : Nat
  returned : WordArray
  under : Option String
  deriving DecidableEq

/-- Where a call is suspended. -/
inductive Point where
  | gettingKey (task : Task) (point : KeyPoint)
  /-- `getKey` has returned and the call is to go on. -/
  | keyed (task : Task) (key : Held)
  /-- `getRandomBytesAsync(16)` is under way for the IV. -/
  | gettingIv (plaintext : String) (key : Held)
  /-- Resolved with a text, or rejected. -/
  | finished (result : Option String)
  deriving DecidableEq

/-- The answer to what a call waits for: failure, or bytes as a text. -/
structure Answer where
  fails : Bool
  bytes : String
  deriving DecidableEq

inductive Event where
  | setActiveWalletForCrypto (wallet : Option Wallet)
  | resetKeyCache
  deriving DecidableEq

inductive Observation where
  | quiet
  /-- `readOrCreateMasterKey` returns. -/
  | masterKey (b64 : String)
  | wiped (cell : Nat)
  /-- The AES operation of an encryption runs on this content of the key. -/
  | encrypted (key : Held) (used : WordArray) (registered : Option String) (payload : String)
  | decrypted (key : Held) (used : WordArray) (text : Option String)
  deriving DecidableEq

def Shared.content (s : Shared) (cell : Nat) : WordArray := s.heap.getD cell ⟨[], 0⟩

/-- Allocate a key object and cache it. -/
def Shared.cacheKey (s : Shared) (key : WordArray) : Shared :=
  { s with heap := s.heap ++ [key], keyWordArrayCache := some s.heap.length }

/-- Drop the cached key object and wipe it. -/
def Shared.wipeCache (s : Shared) : Shared :=
  match s.keyWordArrayCache with
  | none => s
  | some cell => { s with heap := s.heap.modify cell wipeWordArray, keyWordArrayCache := none }

def Shared.wipeObservation (s : Shared) : Observation :=
  match s.keyWordArrayCache with
  | none => .quiet
  | some cell => .wiped cell

def setActiveWalletForCrypto (s : Shared) (wallet : Option Wallet) : Shared × Observation :=
  let prevKey : Option String := s.activeWalletForCrypto.map (·.secretSeed)
  let nextKey : Option String := wallet.map (·.secretSeed)
  if prevKey ≠ nextKey then
    ({ s.wipeCache with activeWalletForCrypto := wallet }, s.wipeObservation)
  else ({ s with activeWalletForCrypto := wallet }, .quiet)

def resetKeyCache (s : Shared) : Shared × Observation := (s.wipeCache, s.wipeObservation)

/-- The call goes on with the cached key object. -/
def hold (s : Shared) (task : Task) (cell : Nat) : Point :=
  .keyed task ⟨cell, s.content cell, s.seed⟩

variable (P : Primitives)

/-- The first stretch of `readOrCreateMasterKey`. -/
def readOrCreateMasterKey (s : Shared) : KeyPoint :=
  match P.platform with
  | .native => .reading
  | .web false => .returned "web-fallback-key-plaintext-only"
  | .web true =>
      match s.masterKeyStore.filter (· ≠ "") with
      | some existing => .returned existing
      | none => .generating

/-- The observation that goes with a new suspension point of `getKey`. -/
def KeyPoint.observation : KeyPoint → Observation
  | .returned b64 => .masterKey b64
  | _ => .quiet

/-- The first stretch of `getKey`: the cache, the wallet or the device key. -/
def getKey (s : Shared) (task : Task) : Turn Shared Point Observation :=
  match s.keyWordArrayCache with
  | some cell => ⟨s, hold s task cell, .quiet⟩
  | none =>
      match s.seed with
      | some seed =>
          match P.pbkdf2 seed with
          | none => ⟨s, .finished none, .quiet⟩
          | some derived =>
              let s' := s.cacheKey derived
              ⟨s', hold s' task s.heap.length, .quiet⟩
      | none =>
          let point := readOrCreateMasterKey P s
          ⟨s, .gettingKey task point, point.observation⟩

/-- The later stretches of `getKey`. A value of the store shorter than 40
characters is not taken for a key. -/
def resumeKey (s : Shared) (task : Task) (point : KeyPoint) (answer : Answer) :
    Turn Shared Point Observation :=
  let suspend (s : Shared) (point : KeyPoint) : Turn Shared Point Observation :=
    ⟨s, .gettingKey task point, point.observation⟩
  match point with
  | .reading => suspend s (.read (if answer.fails then none else s.masterKeyStore))
  | .read found =>
      match found.filter (40 ≤ ·.length) with
      | some existing => suspend s (.returned existing)
      | none => suspend s .generating
  | .generating =>
      if answer.fails then ⟨s, .finished none, .quiet⟩ else suspend s (.generated answer.bytes)
  | .generated created =>
      match P.platform with
      | .native => suspend s (.writing created)
      | .web _ =>
          if answer.fails then ⟨s, .finished none, .quiet⟩
          else suspend { s with masterKeyStore := some created } (.returned created)
  | .writing created =>
      suspend (if answer.fails then s else { s with masterKeyStore := some created })
        (.written created)
  | .written created => suspend s (.returned created)
  | .returned b64 =>
      let s' := s.cacheKey (P.base64Parse b64)
      ⟨s', hold s' task s.heap.length, .quiet⟩

/-- The first stretch of `encrypt` or `decrypt`. -/
def start (s : Shared) (task : Task) : Turn Shared Point Observation :=
  match task with
  | .encrypt _ => getKey P s task
  | .decrypt payload =>
      if payload.toList.contains '.' then getKey P s task else ⟨s, .finished (some ""), .quiet⟩

/-- The later stretches of a call. -/
def resume (s : Shared) (point : Point) (answer : Answer) : Turn Shared Point Observation :=
  match point with
  | .gettingKey task point => resumeKey P s task point answer
  | .keyed (.encrypt plaintext) key => ⟨s, .gettingIv plaintext key, .quiet⟩
  | .keyed (.decrypt payload) key =>
      let used := s.content key.cell
      let text := P.aesDecrypt used payload
      ⟨s, .finished text, .decrypted key used text⟩
  | .gettingIv plaintext key =>
      if answer.fails then ⟨s, .finished none, .quiet⟩
      else
        let used := s.content key.cell
        let payload := P.aesEncrypt used answer.bytes plaintext
        ⟨s, .finished (some payload), .encrypted key used s.seed payload⟩
  | .finished result => ⟨s, .finished result, .quiet⟩

def event (s : Shared) : Event → Shared × Observation
  | .setActiveWalletForCrypto wallet => setActiveWalletForCrypto s wallet
  | .resetKeyCache => resetKeyCache s

/-- The layer as a program of interleaved calls. -/
def program : Program Shared Point Task Answer Event Observation where
  start := start P
  resume := resume P
  event := event

/-- The module as it is loaded, over whatever the store holds. -/
def initial (masterKeyStore : Option String) : Shared where
  heap := []
  keyWordArrayCache := none
  activeWalletForCrypto := none
  masterKeyStore := masterKeyStore

/-- A stretch of a call that was suspended at the given point, if it had been
started before. -/
inductive Stretch (s : Shared) : Option Point → Turn Shared Point Observation → Prop where
  | cached (task : Task) (cell : Nat) (hCache : s.keyWordArrayCache = some cell) :
      Stretch s none ⟨s, hold s task cell, .quiet⟩
  | derived (task : Task) (seed : String) (key : WordArray) (hCache : s.keyWordArrayCache = none)
      (hSeed : s.seed = some seed) (hKey : P.pbkdf2 seed = some key) :
      Stretch s none ⟨s.cacheKey key, hold (s.cacheKey key) task s.heap.length, .quiet⟩
  | waiting (before : Option Point) (store : Option String) (task : Task) (point : KeyPoint) :
      Stretch s before ⟨{ s with masterKeyStore := store }, .gettingKey task point,
        point.observation⟩
  | legacy (task : Task) (b64 : String) :
      Stretch s (some (.gettingKey task (.returned b64))) ⟨s.cacheKey (P.base64Parse b64),
        hold (s.cacheKey (P.base64Parse b64)) task s.heap.length, .quiet⟩
  | requestIv (plaintext : String) (key : Held) :
      Stretch s (some (.keyed (.encrypt plaintext) key)) ⟨s, .gettingIv plaintext key, .quiet⟩
  | encrypted (plaintext iv : String) (key : Held) :
      Stretch s (some (.gettingIv plaintext key))
        ⟨s, .finished (some (P.aesEncrypt (s.content key.cell) iv plaintext)),
          .encrypted key (s.content key.cell) s.seed
            (P.aesEncrypt (s.content key.cell) iv plaintext)⟩
  | decrypted (payload : String) (key : Held) :
      Stretch s (some (.keyed (.decrypt payload) key))
        ⟨s, .finished (P.aesDecrypt (s.content key.cell) payload),
          .decrypted key (s.content key.cell) (P.aesDecrypt (s.content key.cell) payload)⟩
  | finished (before : Option Point) (result : Option String) :
      Stretch s before ⟨s, .finished result, .quiet⟩

variable {P}

/-- What the first stretch of `getKey` can do: return the cached key, derive and
cache the key of the registered seed, or begin to read the device key. Later
proofs are by these cases and never look at the code again. -/
theorem getKey_stretch (s : Shared) (task : Task) : Stretch P s none (getKey P s task) := by
  unfold getKey
  split
  · next cell hCache => exact .cached task cell hCache
  · next hCache =>
      split
      · next seed hSeed =>
          split
          · exact .finished none none
          · next key hKey => exact .derived task seed key hCache hSeed hKey
      · exact .waiting none s.masterKeyStore task _

theorem start_stretch (s : Shared) (task : Task) : Stretch P s none (start P s task) := by
  unfold start
  split
  · exact getKey_stretch s _
  · split
    · exact getKey_stretch s _
    · exact .finished none _

/-- What a stretch of the device-key branch can do with an answer: go on to the
next storage call, cache the key and hand it to the task that waits for it, or
end with the exception. -/
theorem resumeKey_stretch (s : Shared) (task : Task) (point : KeyPoint) (answer : Answer) :
    Stretch P s (some (.gettingKey task point)) (resumeKey P s task point answer) := by
  cases point with
  | reading => exact .waiting _ s.masterKeyStore task _
  | read found =>
      simp only [resumeKey]
      split
      · exact .waiting _ s.masterKeyStore task _
      · exact .waiting _ s.masterKeyStore task _
  | generating =>
      simp only [resumeKey]
      split
      · exact .finished _ none
      · exact .waiting _ s.masterKeyStore task _
  | generated created =>
      simp only [resumeKey]
      split
      · exact .waiting _ s.masterKeyStore task _
      · split
        · exact .finished _ none
        · exact .waiting _ (some created) task _
  | writing created =>
      simp only [resumeKey]
      split
      · exact .waiting _ s.masterKeyStore task _
      · exact .waiting _ (some created) task _
  | written created => exact .waiting _ s.masterKeyStore task _
  | returned b64 => exact .legacy task b64

/-- What any stretch of a suspended call can do. Outside the device-key branch
it only makes or reads a record with the object that the call has held since
`getKey` returned. -/
theorem resume_stretch (s : Shared) (point : Point) (answer : Answer) :
    Stretch P s (some point) (resume P s point answer) := by
  cases point with
  | gettingKey task point => exact resumeKey_stretch s task point answer
  | keyed task key =>
      cases task with
      | encrypt plaintext => exact .requestIv plaintext key
      | decrypt payload => exact .decrypted payload key
  | gettingIv plaintext key =>
      simp only [resume]
      split
      · exact .finished _ none
      · exact .encrypted plaintext answer.bytes key
  | finished result => exact .finished _ result

/-- An event leaves the cache alone only if the registered seed stays. -/
inductive Change (s : Shared) : Event → Shared × Observation → Prop where
  | same (wallet : Option Wallet)
      (hSeed : wallet.map (·.secretSeed) = s.activeWalletForCrypto.map (·.secretSeed)) :
      Change s (.setActiveWalletForCrypto wallet)
        ({ s with activeWalletForCrypto := wallet }, .quiet)
  | switched (wallet : Option Wallet)
      (hSeed : wallet.map (·.secretSeed) ≠ s.activeWalletForCrypto.map (·.secretSeed)) :
      Change s (.setActiveWalletForCrypto wallet)
        ({ s.wipeCache with activeWalletForCrypto := wallet }, s.wipeObservation)
  | reset : Change s .resetKeyCache (s.wipeCache, s.wipeObservation)

/-- What the two synchronous functions do: both wipe the cached object and drop
it from the cache, and registering a wallet also replaces the registered seed.
-/
theorem event_change (s : Shared) (e : Event) : Change s e (event s e) := by
  cases e with
  | setActiveWalletForCrypto wallet =>
      simp only [event, setActiveWalletForCrypto]
      split
      · next h => exact .switched wallet (Ne.symm h)
      · next h => exact .same wallet (not_not.mp h).symm
  | resetKeyCache => exact .reset

end NotebookCrypto
