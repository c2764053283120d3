import StellarTimelock.Notebook.Crypto

/-! The biometric root secret. A read that fails looks to `enroll` like a
secret that was never made. -/
namespace Biometric

open NotebookCrypto (WordArray Platform)
open Execution

/-- The cryptography the keys are derived with. -/
structure CryptoJs where
  /-- `CryptoJS.HmacSHA256`. -/
  hmacSha256 : (message key : WordArray) → WordArray
  utf8Parse : String → WordArray
  hexParse : String → WordArray
  concat : WordArray → WordArray → WordArray

/-- What the device holds under `ROOT_SECRET_KEY` and `ENROLLED_KEY`. -/
structure Store where
  rootSecret : Option String
  enrolled : Option String
  deriving DecidableEq

/-- How a read goes: the item is answered, the prompt is cancelled or the
storage throws. -/
inductive Read where
  | answers
  | cancelled
  | throws
  deriving DecidableEq, Repr

/-- How a write goes: whether it takes effect, and the message it throws. -/
structure Write where
  stores : Bool
  error : Option String
  deriving DecidableEq

/-- What `enroll` is answered, in the order in which it asks. A missing answer
is an exception. -/
structure Answers where
  hasHardware : Option Bool
  isEnrolled : Option Bool
  prompt : Option Bool
  read : Read
  randomBytes : Option (Vector (BitVec 8) 32)
  write : Write
  flagWrite : Write

inductive BiometricAvailability where
  | available
  | noHardware
  | notEnrolled
  | unsupportedWeb
  deriving DecidableEq, Repr

structure EnrollmentResult where
  ok : Bool
  reason : Option String
  deriving DecidableEq

variable (platform : Platform)

def getBiometricAvailability (hasHardware isEnrolled : Option Bool) : BiometricAvailability :=
  match platform with
  | .web _ => .unsupportedWeb
  | .native =>
      match hasHardware, isEnrolled with
      | some true, some true => .available
      | some true, some false => .notEnrolled
      | _, _ => .noHardware

/-- A write reaches the store of the device, or of a browser that has one. -/
def Write.lands (write : Write) : Bool :=
  match platform with
  | .web false => false
  | _ => write.stores

def setEnrolledFlag (s : Store) (v : Bool) (write : Write) : Store :=
  if write.lands platform then { s with enrolled := some (if v then "1" else "0") } else s

def authenticate (prompt : Option Bool) : Bool :=
  match platform with
  | .web _ => true
  | .native => prompt.getD false

def hexByte (byte : BitVec 8) : List Char := (Nat.toDigits 16 byte.toNat).leftpad 2 '0'

def generateRandomHex (bytes : Vector (BitVec 8) 32) : String :=
  String.ofList (bytes.toList.flatMap hexByte)

def readRootSecret (s : Store) (read : Read) : Option String :=
  match platform, read with
  | .web false, _ => none
  | _, .answers => s.rootSecret
  | _, _ => none

/-- The part of `enroll` after its prompt has been passed. -/
def enrollSecret (s : Store) (a : Answers) : Store × Option EnrollmentResult :=
  match (readRootSecret platform s a.read).filter (· ≠ "") with
  | some _ => (setEnrolledFlag platform s true a.flagWrite, some ⟨true, none⟩)
  | none =>
      match a.randomBytes with
      | none => (s, none)
      | some bytes =>
          let hex := generateRandomHex bytes
          let s' := if a.write.lands platform then { s with rootSecret := some hex } else s
          match a.write.error with
          | some message => (s', some ⟨false, some ("Could not persist biometric key: " ++ message)⟩)
          | none => (setEnrolledFlag platform s' true a.flagWrite, some ⟨true, none⟩)

/-- No result is a rejection. -/
def enroll (s : Store) (a : Answers) : Store × Option EnrollmentResult :=
  match getBiometricAvailability platform a.hasHardware a.isEnrolled with
  | .noHardware => (s, some ⟨false, some "This device has no biometric hardware."⟩)
  | .notEnrolled =>
      (s, some ⟨false, some "Add a fingerprint or Face ID in your device settings first."⟩)
  | _ =>
      if authenticate platform a.prompt then enrollSecret platform s a
      else (s, some ⟨false, some "Biometric prompt was cancelled or failed."⟩)

def unenroll (s : Store) (write : Write) : Store := setEnrolledFlag platform s false write

variable (C : CryptoJs)

/-- The blocks of the expansion from the given counter on, with the last one. -/
def expand (prk infoBytes : WordArray) : (rounds i : Nat) → (t output : WordArray) → WordArray
  | 0, _, _, output => output
  | rounds + 1, i, t, output =>
      let counter : WordArray := ⟨[BitVec.ofNat 32 i <<< 24], 1⟩
      let t' := C.hmacSha256 (C.concat (C.concat t infoBytes) counter) prk
      expand prk infoBytes rounds (i + 1) t' (C.concat output t')

def hkdfSha256 (ikm salt : WordArray) (info : String) (length : Nat) : WordArray :=
  let prk := C.hmacSha256 ikm salt
  let n := (length + 31) / 32
  let output := expand C prk (C.utf8Parse info) n 1 ⟨[], 0⟩ ⟨[], 0⟩
  ⟨output.words.take ((length + 3) / 4), length⟩

/-- The key of a secret. -/
def keyOf (hex info : String) : WordArray :=
  hkdfSha256 C (C.hexParse hex) (C.utf8Parse "xlm-vault:hkdf-salt:v1") info 32

def deriveKey (s : Store) (info : String) (read : Read) : Option WordArray :=
  ((readRootSecret platform s read).filter (· ≠ "")).map fun hex => keyOf C hex info

inductive Call where
  | enroll (answers : Answers)
  | unenroll (write : Write)
  | deriveKey (info : String) (read : Read)

inductive Observation where
  | enrolled (result : Option EnrollmentResult)
  | unenrolled
  | derived (info : String) (key : Option WordArray)

def step (s : Store) : Call → Store × Observation
  | .enroll answers => ((enroll platform s answers).1, .enrolled (enroll platform s answers).2)
  | .unenroll write => (unenroll platform s write, .unenrolled)
  | .deriveKey info read => (s, .derived info (deriveKey platform C s info read))

/-- The secret that is stored; an empty text is none. -/
def Store.secret (s : Store) : Option String := s.rootSecret.filter (· ≠ "")

/-- The call gets past the checks and the prompt of `enroll`. -/
def Answers.pass (a : Answers) : Prop :=
  getBiometricAvailability platform a.hasHardware a.isEnrolled ≠ .noHardware ∧
    getBiometricAvailability platform a.hasHardware a.isEnrolled ≠ .notEnrolled ∧
    authenticate platform a.prompt = true

/-- An `enroll` that fails to read a stored secret does not get to write other
random bytes in its place. -/
def Careful (s : Store) : Call → Prop
  | .enroll a => ∀ hex bytes, s.secret = some hex → a.pass platform → a.read ≠ .answers →
      a.randomBytes = some bytes → a.write.lands platform = true → generateRandomHex bytes = hex
  | _ => True

/-- In no stretch of the run is a stored secret lost or replaced. -/
def SecretKept (s : Store) (calls : List Call) : Prop :=
  ∀ before between after, calls = before ++ between ++ after → ∀ hex,
    (final (step platform C) s before).secret = some hex →
      (final (step platform C) s (before ++ between)).secret = some hex

/-- All keys that are derived for one purpose are the same. -/
def KeysAgree (s : Store) (calls : List Call) : Prop :=
  ∀ info key key', .derived info (some key) ∈ trace (step platform C) s calls →
    .derived info (some key') ∈ trace (step platform C) s calls → key = key'

variable {platform} {C}

theorem secret_eq_some {s : Store} {hex : String} :
    s.secret = some hex ↔ s.rootSecret = some hex ∧ hex ≠ "" := by
  unfold Store.secret
  rw [Option.filter_eq_some_iff, decide_eq_true_iff]

@[simp] theorem setEnrolledFlag_secret (s : Store) (v : Bool) (write : Write) :
    (setEnrolledFlag platform s v write).secret = s.secret := by
  unfold setEnrolledFlag
  split <;> rfl

/-- A read that finds a text has found the stored secret; a cancelled or failed
one finds none. -/
theorem read_secret {s : Store} {read : Read} {hex : String}
    (h : (readRootSecret platform s read).filter (· ≠ "") = some hex) :
    s.secret = some hex ∧ read = .answers := by
  unfold readRootSecret at h
  split at h
  · cases h
  · exact ⟨h, rfl⟩
  · cases h

/-- A write that takes effect did not follow a read of the stored secret. -/
theorem read_fails {s : Store} {a : Answers} {hex : String} (hSecret : s.secret = some hex)
    (hRead : (readRootSecret platform s a.read).filter (· ≠ "") = none)
    (hLands : a.write.lands platform = true) : a.read ≠ .answers := by
  intro hAnswers
  unfold readRootSecret at hRead
  rw [hAnswers] at hRead
  split at hRead
  · cases hLands
  · cases hSecret.symm.trans hRead
  · next hElse => exact hElse rfl

/-- When `enroll` leaves a stored secret as it is: exactly if it reads it, or
draws no other one in its place, or its write does not land. -/
theorem enrollSecret_secret {s : Store} (a : Answers) {hex : String}
    (hSecret : s.secret = some hex) :
    (enrollSecret platform s a).1.secret = some hex ↔
      ∀ bytes, a.read ≠ .answers → a.randomBytes = some bytes → a.write.lands platform = true →
        generateRandomHex bytes = hex := by
  unfold enrollSecret
  split
  · next found hFound =>
      rw [setEnrolledFlag_secret]
      exact ⟨fun _ bytes hRead => absurd (read_secret hFound).2 hRead, fun _ => hSecret⟩
  · next hNone =>
      split
      · next hRandom =>
          refine ⟨fun _ bytes _ hBytes => ?_, fun _ => hSecret⟩
          cases hRandom.symm.trans hBytes
      · next bytes hBytes =>
          have hAfter : (if a.write.lands platform then
              { s with rootSecret := some (generateRandomHex bytes) } else s).secret = some hex ↔
              (a.write.lands platform = true → generateRandomHex bytes = hex) := by
            split
            · next hLands =>
                rw [secret_eq_some]
                refine ⟨fun h _ => Option.some.inj h.1, fun h => ?_⟩
                rw [h hLands]
                exact ⟨rfl, (secret_eq_some.mp hSecret).2⟩
            · next hLost => exact ⟨fun _ hLands => absurd hLands hLost, fun _ => hSecret⟩
          have hReads : (a.write.lands platform = true → generateRandomHex bytes = hex) ↔
              ∀ other, a.read ≠ .answers → a.randomBytes = some other →
                a.write.lands platform = true → generateRandomHex other = hex := by
            constructor
            · intro h other _ hOther hLands
              cases hBytes.symm.trans hOther
              exact h hLands
            · intro h hLands
              exact h bytes (read_fails hSecret hNone hLands) hBytes hLands
          simp only
          split
          · exact hAfter.trans hReads
          · rw [setEnrolledFlag_secret]
            exact hAfter.trans hReads

/-- A call leaves a stored secret exactly if it is careful. -/
theorem step_secret {s : Store} (call : Call) {hex : String} (hSecret : s.secret = some hex) :
    (step platform C s call).1.secret = some hex ↔ Careful platform s call := by
  cases call with
  | unenroll write =>
      refine ⟨fun _ => trivial, fun _ => ?_⟩
      show (setEnrolledFlag platform s false write).secret = some hex
      rw [setEnrolledFlag_secret, hSecret]
  | deriveKey info read => exact ⟨fun _ => trivial, fun _ => hSecret⟩
  | enroll a =>
      show (enroll platform s a).1.secret = some hex ↔ _
      have hStays (hPass : ¬ a.pass platform) : s.secret = some hex ↔
          Careful platform s (.enroll a) :=
        ⟨fun _ _ _ _ h => absurd h hPass, fun _ => hSecret⟩
      unfold enroll
      split
      · next hNone => exact hStays fun h => h.1 hNone
      · next hNone => exact hStays fun h => h.2.1 hNone
      · next hHardware hEnrolled =>
          split
          · next hPrompt =>
              rw [enrollSecret_secret a hSecret]
              constructor
              · intro h other bytes hOther _ hRead hBytes hLands
                cases hSecret.symm.trans hOther
                exact h bytes hRead hBytes hLands
              · intro h bytes hRead hBytes hLands
                exact h hex bytes hSecret ⟨hHardware, hEnrolled, hPrompt⟩ hRead hBytes hLands
          · next hPrompt => exact hStays fun h => hPrompt h.2.2

/-- Along careful calls a secret that is once stored stays the secret, by
induction over the calls. -/
theorem secret_along {s : Store} {hex : String} (hSecret : s.secret = some hex)
    (calls : List Call) (hAlong : Along (step platform C) (Careful platform) s calls) :
    (final (step platform C) s calls).secret = some hex :=
  history_invariant_along (step platform C) (fun _ s => s.secret = some hex) hSecret
    (fun _ _ call h hCareful => (step_secret call h).mpr hCareful) calls hAlong

/-- A run keeps its secrets exactly if every one of its calls is careful; the
first that is not replaces the secret. -/
theorem secretKept_iff (s : Store) (calls : List Call) :
    SecretKept platform C s calls ↔ Along (step platform C) (Careful platform) s calls := by
  constructor
  · intro hKept
    rw [along_iff]
    intro before call after hSplit
    cases hSecret : (final (step platform C) s before).secret with
    | none =>
        cases call with
        | enroll a =>
            intro hex _ hOther
            cases hSecret.symm.trans hOther
        | unenroll write => trivial
        | deriveKey info read => trivial
    | some hex =>
        rw [← step_secret (C := C) call hSecret, ← final_concat]
        exact hKept before [call] after (by rw [hSplit, List.append_assoc, List.singleton_append])
          hex hSecret
  · intro hAlong before between after hSplit hex hSecret
    rw [hSplit, along_append, along_append] at hAlong
    rw [final_append]
    exact secret_along hSecret between hAlong.1.2

/-- With one secret throughout, all keys that were derived for one purpose in
between are equal. -/
theorem keysAgree_along {s : Store} {calls : List Call}
    (hAlong : Along (step platform C) (Careful platform) s calls) :
    KeysAgree platform C s calls := by
  have hKeys := history_invariant_along (step platform C)
    (fun past s => ∀ info key, .derived info (some key) ∈ past →
      ∃ hex, s.secret = some hex ∧ key = keyOf C hex info)
    (fun _ _ h => absurd h List.not_mem_nil) ?_ calls hAlong
  · intro info key key' hKey hKey'
    obtain ⟨hex, hSecret, rfl⟩ := hKeys info key hKey
    obtain ⟨hex', hSecret', rfl⟩ := hKeys info key' hKey'
    cases hSecret.symm.trans hSecret'
    rfl
  · intro past t call hPast hCareful info key hKey
    rcases List.mem_append.mp hKey with hOld | hNew
    · obtain ⟨hex, hSecret, hEq⟩ := hPast info key hOld
      exact ⟨hex, (step_secret call hSecret).mpr hCareful, hEq⟩
    · have hObserved := List.mem_singleton.mp hNew
      cases call with
      | enroll a => cases hObserved
      | unenroll write => cases hObserved
      | deriveKey other read =>
          injection hObserved with hInfo hDerived
          subst hInfo
          obtain ⟨hex, hRead, hEq⟩ := Option.map_eq_some_iff.mp hDerived.symm
          exact ⟨hex, (read_secret hRead).1, hEq.symm⟩

/-- A stored secret is kept throughout a run exactly if every `enroll` of it is
careful, and then all keys derived for one purpose are the same. -/
theorem root_secret_kept (platform : Platform) (C : CryptoJs) (s : Store) (calls : List Call) :
    (SecretKept platform C s calls ↔ Along (step platform C) (Careful platform) s calls) ∧
      (Along (step platform C) (Careful platform) s calls → KeysAgree platform C s calls) :=
  ⟨secretKept_iff s calls, keysAgree_along⟩

/-- Cryptography that only lines up what it is given. -/
def lining : CryptoJs where
  hmacSha256 := fun message key => ⟨message.words ++ key.words, 32⟩
  utf8Parse := fun _ => ⟨[], 0⟩
  hexParse := fun hex => ⟨hex.toList.map fun digit => BitVec.ofNat 32 digit.toNat, 32⟩
  concat := fun first second => ⟨first.words ++ second.words, first.sigBytes + second.sigBytes⟩

/-- An `enroll` whose prompt is passed and whose writes succeed. -/
def passing (read : Read) (byte : BitVec 8) : Call :=
  .enroll ⟨some true, some true, some true, read, some (Vector.replicate 32 byte), ⟨true, none⟩,
    ⟨true, none⟩⟩

/-- The secret made of these bytes. -/
def secretOf (byte : BitVec 8) : String := generateRandomHex (Vector.replicate 32 byte)

/-- Biometric unlock is turned on, off and on again, and the last time the
prompt of the read is cancelled. -/
def toggled : List Call :=
  [passing .answers 0, .deriveKey "notebook" .answers, .unenroll ⟨true, none⟩,
    passing .cancelled 1, .deriveKey "notebook" .answers]

/-- The secret is replaced, and the same purpose gets another key. -/
theorem toggled_replaces :
    ¬ SecretKept .native lining ⟨none, none⟩ toggled ∧
      ¬ KeysAgree .native lining ⟨none, none⟩ toggled := by
  constructor
  · intro hKept
    have hLast := hKept (toggled.take 3) [passing .cancelled 1] (toggled.drop 4) rfl
      (secretOf 0) (by decide)
    exact absurd hLast (by decide)
  · intro hAgree
    refine absurd (hAgree "notebook" (keyOf lining (secretOf 0) "notebook")
      (keyOf lining (secretOf 1) "notebook") ?_ ?_) (by decide)
    · exact List.mem_cons_of_mem _ List.mem_cons_self
    · exact List.mem_cons_of_mem _ (List.mem_cons_of_mem _ (List.mem_cons_of_mem _
        (List.mem_cons_of_mem _ List.mem_cons_self)))

theorem root_secret_kept_sample :
    KeysAgree .native lining ⟨none, none⟩
      [passing .cancelled 0, .deriveKey "notebook" .answers, passing .answers 1,
        .deriveKey "notebook" .answers] := by
  refine (root_secret_kept .native lining ⟨none, none⟩ _).2 ⟨?_, trivial, ?_, trivial, trivial⟩
  · intro hex bytes hSecret
    cases hSecret
  · intro hex bytes _ _ hRead
    exact absurd rfl hRead

end Biometric
