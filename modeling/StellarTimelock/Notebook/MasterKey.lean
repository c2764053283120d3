import StellarTimelock.Notebook.Crypto

/-! The stored master key of a native device over restarts. Calls that find no
key each create one, and whoever writes last has it kept. -/
namespace NotebookCrypto

open Interleaving Execution

/-- What happens on a device: a step of the process that runs, or a new process
over the same store. -/
inductive DeviceAction where
  | act (a : Action Task Answer Event)
  | restart

variable (P : Primitives)

def deviceStep (s : System Shared Point) : DeviceAction → System Shared Point × Option Observation
  | .act a => Interleaving.step (program P) s a
  | .restart => (⟨initial s.shared.masterKeyStore, []⟩, none)

theorem deviceStep_act (s : System Shared Point) (a : Action Task Answer Event) :
    deviceStep P s (.act a) = Interleaving.step (program P) s a := rfl

/-- A stored text that is taken for a key. -/
def usable (found : Option String) : Option String := found.filter (40 ≤ ·.length)

/-- 32 random bytes are a text of 44 characters. -/
def Generates (s : System Shared Point) : DeviceAction → Prop
  | .act (.resume number answer) => ∀ task, s.calls[number]? = some (.gettingKey task .generating) →
      answer.fails = false → answer.bytes.length = 44
  | _ => True

/-- The call has found no key, and has not created this one. -/
def KeyPoint.Strays (key : String) : KeyPoint → Prop
  | .read found => usable found = none
  | .generating => True
  | .generated created => created ≠ key
  | .writing created => created ≠ key
  | .written created => created ≠ key
  | _ => False

def Point.Strays (key : String) : Point → Prop
  | .gettingKey _ point => point.Strays key
  | _ => False

/-- A read fails only while no key is stored, and a write of a new key takes
effect only while no other call is about to create another one. -/
def Orderly (s : System Shared Point) : DeviceAction → Prop
  | .act (.resume number answer) => ∀ task point, s.calls[number]? = some (.gettingKey task point) →
      (point = .reading → answer.fails = true → usable s.shared.masterKeyStore = none) ∧
      ∀ created, point = .writing created → answer.fails = false →
        ∀ other l, other ≠ number → s.calls[other]? = some l → ¬ l.Strays created
  | _ => True

/-- The stored key stays and every completed `readOrCreateMasterKey` returns it. -/
def Keeps (key : String) (s : System Shared Point) (as : List DeviceAction) : Prop :=
  (final (deviceStep P) s as).shared.masterKeyStore = some key ∧
    ∀ b64, some (.masterKey b64) ∈ trace (deviceStep P) s as → b64 = key

/-- The store, the point, the answer, and the store and the point after. -/
inductive Progress (store : Option String) :
    KeyPoint → Answer → Option String → Option KeyPoint → Prop where
  | readFails (answer : Answer) (hFails : answer.fails = true) :
      Progress store .reading answer store (some (.read none))
  | reads (answer : Answer) (hAnswers : answer.fails = false) :
      Progress store .reading answer store (some (.read store))
  | finds (found : Option String) (existing : String) (answer : Answer)
      (hKey : usable found = some existing) :
      Progress store (.read found) answer store (some (.returned existing))
  | misses (found : Option String) (answer : Answer) (hNone : usable found = none) :
      Progress store (.read found) answer store (some .generating)
  | generationFails (answer : Answer) (hFails : answer.fails = true) :
      Progress store .generating answer store none
  | generates (answer : Answer) (hAnswers : answer.fails = false) :
      Progress store .generating answer store (some (.generated answer.bytes))
  | goesToWrite (created : String) (answer : Answer) :
      Progress store (.generated created) answer store (some (.writing created))
  | writeFails (created : String) (answer : Answer) (hFails : answer.fails = true) :
      Progress store (.writing created) answer store (some (.written created))
  | writes (created : String) (answer : Answer) (hAnswers : answer.fails = false) :
      Progress store (.writing created) answer (some created) (some (.written created))
  | returns (created : String) (answer : Answer) :
      Progress store (.written created) answer store (some (.returned created))
  | leaves (b64 : String) (answer : Answer) :
      Progress store (.returned b64) answer store none

/-- A turn that leads to the given point on the way to the key, or off it. -/
def LeadsTo (turn : Turn Shared Point Observation) (task : Task) : Option KeyPoint → Prop
  | some point => turn.point = .gettingKey task point ∧ turn.observation = point.observation
  | none => (∀ task point, turn.point ≠ .gettingKey task point) ∧
      ∀ b64, turn.observation ≠ .masterKey b64

variable {P}

/-- One stretch of `readOrCreateMasterKey` takes the store and the point it
waits at to the next ones as the relation of progress says, and the call goes
where that leads. -/
theorem resumeKey_progress (hNative : P.platform = .native) (s : Shared) (task : Task)
    (point : KeyPoint) (answer : Answer) :
    ∃ next, Progress s.masterKeyStore point answer
        (resumeKey P s task point answer).shared.masterKeyStore next ∧
      LeadsTo (resumeKey P s task point answer) task next := by
  cases point with
  | reading =>
      cases hFails : answer.fails with
      | true =>
          refine ⟨some (.read none), .readFails answer hFails, ?_⟩
          simp only [resumeKey, hFails, if_true]
          exact ⟨rfl, rfl⟩
      | false =>
          refine ⟨some (.read s.masterKeyStore), .reads answer hFails, ?_⟩
          simp only [resumeKey, hFails, Bool.false_eq_true, if_false]
          exact ⟨rfl, rfl⟩
  | read found =>
      simp only [resumeKey]
      split
      · next existing hKey => exact ⟨_, .finds found existing answer hKey, rfl, rfl⟩
      · next hNone => exact ⟨_, .misses found answer hNone, rfl, rfl⟩
  | generating =>
      simp only [resumeKey]
      split
      · next hFails =>
          exact ⟨none, .generationFails answer hFails, fun _ _ h => (by cases h),
            fun _ h => (by cases h)⟩
      · next hAnswers =>
          exact ⟨_, .generates answer (Bool.eq_false_iff.mpr hAnswers), rfl, rfl⟩
  | generated created =>
      simp only [resumeKey, hNative]
      exact ⟨_, .goesToWrite created answer, rfl, rfl⟩
  | writing created =>
      simp only [resumeKey]
      split
      · next hFails => exact ⟨_, .writeFails created answer hFails, rfl, rfl⟩
      · next hAnswers =>
          exact ⟨_, .writes created answer (Bool.eq_false_iff.mpr hAnswers), rfl, rfl⟩
  | written created => exact ⟨_, .returns created answer, rfl, rfl⟩
  | returned b64 =>
      exact ⟨none, .leaves b64 answer, fun _ _ h => (by cases h), fun _ h => (by cases h)⟩

/-- Off the way to the key, a call neither stores nor returns one. -/
theorem resume_elsewhere (s : Shared) {point : Point}
    (hPoint : ∀ task key, point ≠ .gettingKey task key) (answer : Answer) (task : Task) :
    (resume P s point answer).shared.masterKeyStore = s.masterKeyStore ∧
      LeadsTo (resume P s point answer) task none := by
  cases point with
  | gettingKey task key => exact absurd rfl (hPoint task key)
  | keyed task key =>
      cases task with
      | encrypt plaintext => exact ⟨rfl, fun _ _ h => (by cases h), fun _ h => (by cases h)⟩
      | decrypt payload => exact ⟨rfl, fun _ _ h => (by cases h), fun _ h => (by cases h)⟩
  | gettingIv plaintext key =>
      simp only [resume]
      split
      · exact ⟨rfl, fun _ _ h => (by cases h), fun _ h => (by cases h)⟩
      · exact ⟨rfl, fun _ _ h => (by cases h), fun _ h => (by cases h)⟩
  | finished result => exact ⟨rfl, fun _ _ h => (by cases h), fun _ h => (by cases h)⟩

/-- The first stretch of `getKey` leaves the store alone; it has no more to ask,
or it begins to read. -/
theorem getKey_leads (hNative : P.platform = .native) (s : Shared) (task : Task) :
    (getKey P s task).shared.masterKeyStore = s.masterKeyStore ∧
      (LeadsTo (getKey P s task) task none ∨ LeadsTo (getKey P s task) task (some .reading)) := by
  unfold getKey
  split
  · exact ⟨rfl, Or.inl ⟨fun _ _ h => (by cases h), fun _ h => (by cases h)⟩⟩
  · split
    · split
      · exact ⟨rfl, Or.inl ⟨fun _ _ h => (by cases h), fun _ h => (by cases h)⟩⟩
      · exact ⟨rfl, Or.inl ⟨fun _ _ h => (by cases h), fun _ h => (by cases h)⟩⟩
    · refine ⟨rfl, Or.inr ?_⟩
      simp only [readOrCreateMasterKey, hNative]
      exact ⟨rfl, rfl⟩

theorem start_leads (hNative : P.platform = .native) (s : Shared) (task : Task) :
    (start P s task).shared.masterKeyStore = s.masterKeyStore ∧
      (LeadsTo (start P s task) task none ∨ LeadsTo (start P s task) task (some .reading)) := by
  unfold start
  split
  · exact getKey_leads hNative s _
  · split
    · exact getKey_leads hNative s _
    · exact ⟨rfl, Or.inl ⟨fun _ _ h => (by cases h), fun _ h => (by cases h)⟩⟩

/-- Registering a wallet and dropping the cached key leave the store alone and
return no device key. -/
theorem event_store (s : Shared) (e : Event) :
    (event s e).1.masterKeyStore = s.masterKeyStore ∧ ∀ b64, (event s e).2 ≠ .masterKey b64 := by
  have hWipe : s.wipeCache.masterKeyStore = s.masterKeyStore := by
    unfold Shared.wipeCache
    split <;> rfl
  have hQuiet (b64 : String) : s.wipeObservation ≠ .masterKey b64 := by
    unfold Shared.wipeObservation
    split <;> intro h <;> cases h
  generalize hAfter : event s e = after
  have hChange : Change s e after := hAfter ▸ event_change s e
  cases hChange with
  | same wallet hSeed => exact ⟨rfl, fun _ h => (by cases h)⟩
  | switched wallet hSeed => exact ⟨hWipe, hQuiet⟩
  | reset => exact ⟨hWipe, hQuiet⟩

/-- A stored text is used as the key if it has at least 40 characters; what is
shorter is as good as nothing and is replaced. -/
theorem usable_eq_some {found : Option String} {key : String} :
    usable found = some key ↔ found = some key ∧ 40 ≤ key.length := by
  unfold usable
  rw [Option.filter_eq_some_iff, decide_eq_true_iff]

/-- A key that was found is the stored one, new keys are usable, and no call
strays from the stored key. -/
def KeyPoint.Sound (store : Option String) (point : KeyPoint) : Prop :=
  (∀ key, usable store = some key → ¬ point.Strays key) ∧
    match point with
    | .read found => ∀ key, usable found = some key → store = some key
    | .generated created => created.length = 44
    | .writing created => created.length = 44
    | .written created => created.length = 44
    | _ => True

def Point.Sound (store : Option String) : Point → Prop
  | .gettingKey _ point => point.Sound store
  | _ => True

/-- Progress keeps a call sound: the key that it has in hand is the usable one
of the store, unless a read has failed over a store that is not empty. -/
theorem Progress.sound {store after : Option String} {point next : KeyPoint} {answer : Answer}
    (h : Progress store point answer after (some next)) (hSound : point.Sound store)
    (hRead : point = .reading → answer.fails = true → usable store = none)
    (hGenerates : point = .generating → answer.fails = false → answer.bytes.length = 44) :
    next.Sound after := by
  cases h with
  | readFails _ hFails =>
      refine ⟨?_, fun key h => (by cases h)⟩
      intro key hKey
      cases (hRead rfl hFails).symm.trans hKey
  | reads _ hAnswers =>
      refine ⟨?_, fun key hKey => (usable_eq_some.mp hKey).1⟩
      intro key hKey hStrays
      cases hKey.symm.trans hStrays
  | finds found existing _ hKey => exact ⟨fun _ _ h => h, trivial⟩
  | misses found _ hNone => exact ⟨fun key hKey _ => hSound.1 key hKey hNone, trivial⟩
  | generates _ hAnswers =>
      exact ⟨fun key hKey _ => hSound.1 key hKey trivial, hGenerates rfl hAnswers⟩
  | goesToWrite created _ => exact hSound
  | writeFails created _ hFails => exact hSound
  | writes created _ hAnswers =>
      refine ⟨?_, hSound.2⟩
      intro key hKey hStrays
      exact hStrays (Option.some.inj (usable_eq_some.mp hKey).1)
  | returns created _ => exact ⟨fun _ _ h => h, trivial⟩

/-- The store changes only by the write of a new key. -/
theorem Progress.store {store after : Option String} {point : KeyPoint} {answer : Answer}
    {next : Option KeyPoint} (h : Progress store point answer after next) :
    after = store ∨
      ∃ created, point = .writing created ∧ answer.fails = false ∧ after = some created := by
  cases h with
  | writes created _ hAnswers => exact Or.inr ⟨created, rfl, hAnswers, rfl⟩
  | _ => exact Or.inl rfl

/-- A key is returned when it has been found or created. -/
theorem Progress.returned {store after : Option String} {point : KeyPoint} {answer : Answer}
    {b64 : String} (h : Progress store point answer after (some (.returned b64))) :
    (∃ found, point = .read found ∧ usable found = some b64) ∨ point = .written b64 := by
  cases h with
  | finds found _ _ hKey => exact Or.inl ⟨found, rfl, hKey⟩
  | returns _ _ => exact Or.inr rfl

/-- A call that does not stray leaves the stored key and returns no other. -/
theorem Progress.keeps {store after : Option String} {point : KeyPoint} {answer : Answer}
    {next : Option KeyPoint} (h : Progress store point answer after next)
    (hSound : point.Sound store) {key : String} (hKey : usable store = some key) :
    after = some key ∧ ∀ b64, next = some (.returned b64) → b64 = key := by
  have hStored := (usable_eq_some.mp hKey).1
  have hStays := hSound.1 key hKey
  constructor
  · rcases h.store with hSame | ⟨created, hPoint, _, hAfter⟩
    · rw [hSame, hStored]
    · rw [hPoint] at hStays
      rw [hAfter, not_not.mp hStays]
  · intro b64 hNext
    subst hNext
    rcases h.returned with ⟨found, rfl, hFound⟩ | rfl
    · exact Option.some.inj ((hSound.2 b64 hFound).symm.trans hStored)
    · exact not_not.mp hStays

/-- The other calls bear the write of a key that none of them strays from. -/
theorem Point.Sound.after_write {store : Option String} {created : String} {l : Point}
    (h : l.Sound store) (hStays : ¬ l.Strays created)
    (hWriter : ∀ key, usable store = some key → created = key) : l.Sound (some created) := by
  cases l with
  | gettingKey task point =>
      refine ⟨?_, ?_⟩
      · intro key hKey
        rw [← Option.some.inj (usable_eq_some.mp hKey).1]
        exact hStays
      · have hOld := h.2
        cases point with
        | read found =>
            intro key hKey
            have hLength := (usable_eq_some.mp hKey).2
            rw [hWriter key (usable_eq_some.mpr ⟨hOld key hKey, hLength⟩)]
        | reading => trivial
        | generating => trivial
        | generated other => exact hOld
        | writing other => exact hOld
        | written other => exact hOld
        | returned b64 => trivial
  | keyed task key => trivial
  | gettingIv plaintext key => trivial
  | finished result => trivial

theorem Point.Sound.of_leadsTo {store : Option String} {turn : Turn Shared Point Observation}
    {task : Task} {next : Option KeyPoint} (h : LeadsTo turn task next)
    (hSound : ∀ p, next = some p → p.Sound store) : turn.point.Sound store := by
  cases next with
  | some point =>
      rw [h.1]
      exact hSound point rfl
  | none =>
      cases hPoint : turn.point with
      | gettingKey task point => exact absurd hPoint (h.1 task point)
      | keyed task key => trivial
      | gettingIv plaintext key => trivial
      | finished result => trivial

/-- The local assertions: every call on its way to the key has the stored key in
hand, or none while nothing usable is stored. Two calls that find nothing at
once break it, and are not orderly. -/
theorem sound_outline (hNative : P.platform = .native) :
    Outline (program P) (fun s a => Generates s (.act a) ∧ Orderly s (.act a)) (fun _ _ => True)
      (fun _ s l => l.Sound s.masterKeyStore) where
  start past s task _ hCalls _ := by
    obtain ⟨hStore, hLeads⟩ := start_leads hNative s.shared task
    refine ⟨trivial, ?_, ?_⟩
    · rcases hLeads with hNone | hReading
      · exact Point.Sound.of_leadsTo hNone fun _ h => by cases h
      · refine Point.Sound.of_leadsTo hReading ?_
        intro p hp
        cases hp
        exact ⟨fun _ _ h => h, trivial⟩
    · intro l hl
      show l.Sound (start P s.shared task).shared.masterKeyStore
      rw [hStore]
      exact hCalls l hl
  resume past s number point answer _ hCalls hPoint hStep := by
    refine ⟨trivial, ?_⟩
    show (resume P s.shared point answer).point.Sound
        (resume P s.shared point answer).shared.masterKeyStore ∧
      ∀ other l, other ≠ number → s.calls[other]? = some l →
        l.Sound (resume P s.shared point answer).shared.masterKeyStore
    have hSound := hCalls point (List.mem_of_getElem? hPoint)
    by_cases hOff : ∀ task key, point ≠ .gettingKey task key
    · obtain ⟨hStore, hLeads⟩ := resume_elsewhere (P := P) s.shared hOff answer (.decrypt "")
      rw [hStore]
      exact ⟨Point.Sound.of_leadsTo hLeads (fun _ h => by cases h),
        fun _ l _ hl => hCalls l (List.mem_of_getElem? hl)⟩
    · push Not at hOff
      obtain ⟨task, key, rfl⟩ := hOff
      obtain ⟨next, hProgress, hLeads⟩ := resumeKey_progress hNative s.shared task key answer
      obtain ⟨hRead, hWrite⟩ := hStep.2 task key hPoint
      refine ⟨Point.Sound.of_leadsTo hLeads ?_, ?_⟩
      · intro p hNext
        subst hNext
        exact hProgress.sound hSound hRead fun hKey => hStep.1 task (hKey ▸ hPoint)
      · intro other l hOther hl
        have hOld := hCalls l (List.mem_of_getElem? hl)
        show l.Sound (resumeKey P s.shared task key answer).shared.masterKeyStore
        rcases hProgress.store with hSame | ⟨created, hKey, hAnswers, hAfter⟩
        · rw [hSame]
          exact hOld
        · rw [hAfter]
          refine hOld.after_write (hWrite created hKey hAnswers other l hOther hl) ?_
          intro stored hStored
          have hStays := hSound.1 stored hStored
          rw [hKey] at hStays
          exact not_not.mp hStays
  event past s e _ hCalls _ := by
    refine ⟨trivial, ?_⟩
    intro l hl
    show l.Sound (event s.shared e).1.masterKeyStore
    rw [(event_store s.shared e).1]
    exact hCalls l hl
  idle past s _ := ⟨trivial, fun _ h => h⟩

/-- No call strays from what is stored. -/
def AllSound (s : System Shared Point) : Prop := ∀ l ∈ s.calls, l.Sound s.shared.masterKeyStore

/-- An orderly step keeps every call sound. A restart drops the calls and keeps
the store. -/
theorem AllSound.step (hNative : P.platform = .native) {s : System Shared Point} (h : AllSound s)
    {a : DeviceAction} (hGenerates : Generates s a) (hOrderly : Orderly s a) :
    AllSound (deviceStep P s a).1 := by
  cases a with
  | act a =>
      exact ((sound_outline hNative).step [] s a trivial h ⟨hGenerates, hOrderly⟩).2
  | restart => exact fun l hl => absurd hl List.not_mem_nil

/-- A stretch that returns a device key has come to the end of the way, with
this key. -/
theorem LeadsTo.masterKey {turn : Turn Shared Point Observation} {task : Task}
    {next : Option KeyPoint} (h : LeadsTo turn task next) {b64 : String}
    (hKey : turn.observation = .masterKey b64) : next = some (.returned b64) := by
  cases next with
  | none => exact absurd hKey (h.2 b64)
  | some point =>
      have hPoint := h.2.symm.trans hKey
      cases point <;> cases hPoint
      rfl

/-- A step leaves a stored key, and a call that it completes returns it. -/
theorem AllSound.keeps (hNative : P.platform = .native) {s : System Shared Point} (h : AllSound s)
    {key : String} (hKey : usable s.shared.masterKeyStore = some key) (a : DeviceAction) :
    (deviceStep P s a).1.shared.masterKeyStore = some key ∧
      ∀ b64, (deviceStep P s a).2 = some (.masterKey b64) → b64 = key := by
  have hStored := (usable_eq_some.mp hKey).1
  cases a with
  | restart => exact ⟨hStored, fun b64 h => (by cases h)⟩
  | act a =>
      cases a with
      | start task =>
          obtain ⟨hStore, hLeads⟩ := start_leads hNative s.shared task
          refine ⟨hStore.trans hStored, ?_⟩
          intro b64 hObserved
          rcases hLeads with hNone | hReading
          · cases hNone.masterKey (Option.some.inj hObserved)
          · cases hReading.masterKey (Option.some.inj hObserved)
      | event e =>
          obtain ⟨hStore, hQuiet⟩ := event_store s.shared e
          exact ⟨hStore.trans hStored, fun b64 h => absurd (Option.some.inj h) (hQuiet b64)⟩
      | resume number answer =>
          simp only [deviceStep_act]
          cases hPoint : s.calls[number]? with
          | none =>
              rw [step_resume_none hPoint]
              exact ⟨hStored, fun b64 h => (by cases h)⟩
          | some point =>
              rw [step_resume_some hPoint]
              show (resume P s.shared point answer).shared.masterKeyStore = some key ∧
                ∀ b64, some (resume P s.shared point answer).observation = some (.masterKey b64) →
                  b64 = key
              by_cases hOff : ∀ task key, point ≠ .gettingKey task key
              · obtain ⟨hStore, hLeads⟩ :=
                  resume_elsewhere (P := P) s.shared hOff answer (.decrypt "")
                exact ⟨hStore.trans hStored, fun b64 h => absurd (Option.some.inj h) (hLeads.2 b64)⟩
              · push Not at hOff
                obtain ⟨task, keyPoint, rfl⟩ := hOff
                obtain ⟨next, hProgress, hLeads⟩ :=
                  resumeKey_progress hNative s.shared task keyPoint answer
                obtain ⟨hAfter, hReturned⟩ :=
                  hProgress.keeps (h _ (List.mem_of_getElem? hPoint)) hKey
                exact ⟨hAfter, fun b64 h => hReturned b64 (hLeads.masterKey (Option.some.inj h))⟩

/-- The steps under which the stored key is safe. -/
def Admissible (s : System Shared Point) (a : DeviceAction) : Prop := Generates s a ∧ Orderly s a

/-- Every call is sound after every orderly run, over any number of launches. -/
theorem allSound_along (hNative : P.platform = .native) (stored : Option String)
    (as : List DeviceAction) (hAlong : Along (deviceStep P) Admissible ⟨initial stored, []⟩ as) :
    AllSound (final (deviceStep P) ⟨initial stored, []⟩ as) :=
  history_invariant_along (deviceStep P) (fun _ s => AllSound s)
    (fun _ hl => absurd hl List.not_mem_nil) (fun _ _ _ h hStep => h.step hNative hStep.1 hStep.2)
    as hAlong

/-- Once a usable key is stored, an orderly run keeps it and returns no other.
-/
theorem AllSound.keeps_along (hNative : P.platform = .native) {s : System Shared Point}
    (h : AllSound s) {key : String} (hKey : usable s.shared.masterKeyStore = some key)
    (as : List DeviceAction) (hAlong : Along (deviceStep P) Admissible s as) :
    Keeps P key s as := by
  have hLength := (usable_eq_some.mp hKey).2
  have hAll := history_invariant_along (deviceStep P)
    (fun past s => AllSound s ∧ s.shared.masterKeyStore = some key ∧
      ∀ b64, some (.masterKey b64) ∈ past → b64 = key)
    ⟨h, (usable_eq_some.mp hKey).1, fun _ hb => absurd hb List.not_mem_nil⟩ ?_ as hAlong
  · exact hAll.2
  · intro past t a ⟨hSound, hStored, hPast⟩ hStep
    obtain ⟨hAfter, hReturned⟩ :=
      hSound.keeps hNative (usable_eq_some.mpr ⟨hStored, hLength⟩) a
    refine ⟨hSound.step hNative hStep.1 hStep.2, hAfter, ?_⟩
    intro b64 hb
    rcases List.mem_append.mp hb with hOld | hNew
    · exact hPast b64 hOld
    · exact hReturned b64 (List.mem_singleton.mp hNew).symm

/-- The device can be brought to where the key is replaced or not returned. -/
def Losable (P : Primitives) (key : String) (s : System Shared Point) : Prop :=
  ∃ as, Along (deviceStep P) Generates s as ∧ ¬ Keeps P key s as

/-- A key that can be lost after a step can be lost before it. -/
theorem Losable.cons {key : String} {s : System Shared Point} {a : DeviceAction}
    (h : Losable P key (deviceStep P s a).1) (hGenerates : Generates s a) : Losable P key s := by
  obtain ⟨as, hAlong, hLost⟩ := h
  refine ⟨a :: as, ⟨hGenerates, hAlong⟩, ?_⟩
  intro hKeeps
  exact hLost ⟨hKeeps.1, fun b64 hb => hKeeps.2 b64 (List.mem_cons_of_mem _ hb)⟩

section Stray

variable {s : System Shared Point} {number : Nat} {task : Task} {key : String}

/-- The call is suspended where its stretch leads. -/
theorem resumed {point : KeyPoint} (hCall : s.calls[number]? = some (.gettingKey task point))
    (answer : Answer) :
    (deviceStep P s (.act (.resume number answer))).1.calls[number]? =
      some (resumeKey P s.shared task point answer).point := by
  rw [deviceStep_act]
  rw [step_resume_some hCall]
  exact List.getElem?_set_self (List.getElem?_eq_some_iff.mp hCall).1

theorem generates_resume {point : KeyPoint}
    (hCall : s.calls[number]? = some (.gettingKey task point)) {answer : Answer}
    (hLength : point = .generating → answer.bytes.length = 44) :
    Generates s (.act (.resume number answer)) := by
  intro other hOther _
  cases hCall.symm.trans hOther
  exact hLength rfl

/-- A call that has stored another key returns it, so the first key is not the
one that all calls return. -/
theorem losable_written {created : String} (hOther : created ≠ key)
    (hCall : s.calls[number]? = some (.gettingKey task (.written created))) : Losable P key s := by
  refine ⟨[.act (.resume number ⟨false, ""⟩)],
    ⟨generates_resume hCall (fun h => by cases h), trivial⟩, ?_⟩
  intro hKeeps
  refine hOther (hKeeps.2 created (List.mem_singleton.mpr ?_))
  rw [deviceStep_act]
  rw [step_resume_some hCall]
  rfl

/-- A call that is about to store another key replaces the first one, if the
write then succeeds. -/
theorem losable_writing {created : String} (hOther : created ≠ key)
    (hCall : s.calls[number]? = some (.gettingKey task (.writing created))) : Losable P key s := by
  refine ⟨[.act (.resume number ⟨false, ""⟩)],
    ⟨generates_resume hCall (fun h => by cases h), trivial⟩, ?_⟩
  intro hKeeps
  have hStored := hKeeps.1
  simp only [final, deviceStep_act, step_resume_some hCall] at hStored
  exact hOther (Option.some.inj hStored)

theorem losable_generated (hNative : P.platform = .native) {created : String}
    (hOther : created ≠ key)
    (hCall : s.calls[number]? = some (.gettingKey task (.generated created))) :
    Losable P key s := by
  have hNext : (deviceStep P s (.act (.resume number ⟨false, ""⟩))).1.calls[number]? =
      some (.gettingKey task (.writing created)) := by
    rw [resumed hCall]
    simp only [resumeKey, hNative]
  exact (losable_writing hOther hNext).cons (generates_resume hCall fun h => by cases h)

/-- A call that generates a key in spite of a stored one draws another, stores
it and returns it. -/
theorem losable_generating (hNative : P.platform = .native)
    (hCall : s.calls[number]? = some (.gettingKey task .generating)) : Losable P key s := by
  obtain ⟨bytes, hLength, hOther⟩ : ∃ bytes : String, bytes.length = 44 ∧ bytes ≠ key := by
    by_cases h : String.ofList (List.replicate 44 'A') = key
    · refine ⟨String.ofList (List.replicate 44 'B'), by decide, ?_⟩
      rw [← h]
      decide
    · exact ⟨_, by decide, h⟩
  have hNext : (deviceStep P s (.act (.resume number ⟨false, bytes⟩))).1.calls[number]? =
      some (.gettingKey task (.generated bytes)) := resumed hCall ⟨false, bytes⟩
  exact (losable_generated hNative hOther hNext).cons (generates_resume hCall fun _ => hLength)

/-- Wherever a call has strayed from the stored key, the run can go on so that
the key is replaced or another is returned. The cases are the points where it
can wait. -/
theorem losable_of_strays (hNative : P.platform = .native) {point : KeyPoint}
    (hCall : s.calls[number]? = some (.gettingKey task point)) (hStrays : point.Strays key) :
    Losable P key s := by
  cases point with
  | read found =>
      have hNone : found.filter (40 ≤ ·.length) = none := hStrays
      have hNext : (deviceStep P s (.act (.resume number ⟨false, ""⟩))).1.calls[number]? =
          some (.gettingKey task .generating) := by
        rw [resumed hCall]
        simp only [resumeKey, hNone]
      exact (losable_generating hNative hNext).cons (generates_resume hCall fun h => by cases h)
  | generating => exact losable_generating hNative hCall
  | generated created => exact losable_generated hNative hStrays hCall
  | writing created => exact losable_writing hStrays hCall
  | written created => exact losable_written hStrays hCall
  | reading => exact absurd hStrays id
  | returned b64 => exact absurd hStrays id

end Stray

/-- A step that is not orderly leaves a stored key and a call that strays from it. -/
theorem AllSound.losable (hNative : P.platform = .native) {s : System Shared Point}
    (h : AllSound s) {a : DeviceAction} (hDisorderly : ¬ Orderly s a) :
    ∃ key, usable (deviceStep P s a).1.shared.masterKeyStore = some key ∧
      Losable P key (deviceStep P s a).1 := by
  cases a with
  | restart => exact absurd trivial hDisorderly
  | act a =>
      cases a with
      | start task => exact absurd trivial hDisorderly
      | event e => exact absurd trivial hDisorderly
      | resume number answer =>
          simp only [Orderly, not_forall, not_and_or] at hDisorderly
          obtain ⟨task, point, hCall, hRead | hWrite⟩ := hDisorderly
          · obtain ⟨rfl, hFails, hStored⟩ := hRead
            obtain ⟨key, hKey⟩ := Option.ne_none_iff_exists'.mp hStored
            refine ⟨key, ?_, ?_⟩
            · rw [deviceStep_act, step_resume_some hCall]
              exact hKey
            · have hNext : (deviceStep P s (.act (.resume number answer))).1.calls[number]? =
                  some (.gettingKey task (.read none)) := by
                rw [resumed hCall]
                simp only [resumeKey, hFails, if_true]
              exact losable_of_strays hNative hNext rfl
          · obtain ⟨created, rfl, hAnswers, other, l, hOther, hl, hStrays⟩ := hWrite
            have hLength : created.length = 44 := (h _ (List.mem_of_getElem? hCall)).2
            refine ⟨created, ?_, ?_⟩
            · rw [deviceStep_act, step_resume_some hCall]
              show usable (if answer.fails then s.shared else
                { s.shared with masterKeyStore := some created }).masterKeyStore = some created
              rw [if_neg (Bool.eq_false_iff.mp hAnswers)]
              exact usable_eq_some.mpr ⟨rfl, by omega⟩
            · cases l with
              | gettingKey otherTask otherPoint =>
                  have hNext : (deviceStep P s (.act (.resume number answer))).1.calls[other]? =
                      some (.gettingKey otherTask otherPoint) := by
                    rw [deviceStep_act, step_resume_some hCall]
                    exact (List.getElem?_set_ne hOther.symm).trans hl
                  exact losable_of_strays hNative hNext (not_not.mp hStrays)
              | keyed otherTask key => exact absurd (not_not.mp hStrays) id
              | gettingIv plaintext key => exact absurd (not_not.mp hStrays) id
              | finished result => exact absurd (not_not.mp hStrays) id

/-- In every orderly run of a native device a stored key stays, and every call
that completes returns it. After the first step that is not orderly the stored
key can be replaced, or a call can return another. -/
theorem master_key_kept (hNative : P.platform = .native) (stored : Option String)
    (before : List DeviceAction)
    (hAlong : Along (deviceStep P) Admissible ⟨initial stored, []⟩ before) :
    (∀ after key,
      Along (deviceStep P) Admissible (final (deviceStep P) ⟨initial stored, []⟩ before) after →
      usable (final (deviceStep P) ⟨initial stored, []⟩ before).shared.masterKeyStore = some key →
      Keeps P key (final (deviceStep P) ⟨initial stored, []⟩ before) after) ∧
    ∀ a, ¬ Orderly (final (deviceStep P) ⟨initial stored, []⟩ before) a →
      ∃ key,
        usable (final (deviceStep P) ⟨initial stored, []⟩ (before ++ [a])).shared.masterKeyStore =
          some key ∧
        Losable P key (final (deviceStep P) ⟨initial stored, []⟩ (before ++ [a])) := by
  have hSound := allSound_along hNative stored before hAlong
  constructor
  · intro after key hAfter hKey
    exact hSound.keeps_along hNative hKey after hAfter
  · intro a hDisorderly
    rw [final_concat]
    exact hSound.losable hNative hDisorderly

/-- A process with one call is orderly as long as its read succeeds. -/
theorem admissible_alone {s : System Shared Point} {task : Task} {point : KeyPoint}
    (hCalls : s.calls = [.gettingKey task point]) {answer : Answer} (hAnswers : answer.fails = false)
    (hLength : point = .generating → answer.bytes.length = 44) :
    Admissible s (.act (.resume 0 answer)) := by
  constructor
  · intro other hOther _
    rw [hCalls] at hOther
    cases hOther
    exact hLength rfl
  · intro other otherPoint hOther
    refine ⟨fun _ hFails => absurd hFails (Bool.eq_false_iff.mp hAnswers), ?_⟩
    intro created _ _ index l hIndex hl
    rw [hCalls] at hl
    cases index with
    | zero => exact absurd rfl hIndex
    | succ n => cases hl

/-- A device whose cryptography does nothing. -/
def plainDevice : Primitives where
  platform := .native
  pbkdf2 := fun _ => none
  base64Parse := fun _ => ⟨[0], 4⟩
  aesEncrypt := fun _ _ plaintext => plaintext
  aesDecrypt := fun _ payload => some payload

def firstKey : String := String.ofList (List.replicate 44 'A')

def secondKey : String := String.ofList (List.replicate 44 'B')

def creating (number : Nat) (key : String) : List DeviceAction :=
  [.act (.resume number ⟨false, ""⟩), .act (.resume number ⟨false, key⟩),
    .act (.resume number ⟨false, ""⟩), .act (.resume number ⟨false, ""⟩)]

/-- The first launch stores a key. -/
def firstLaunch : List DeviceAction :=
  .act (.start (.encrypt "note")) :: .act (.resume 0 ⟨false, ""⟩) :: creating 0 firstKey

/-- The next launch cannot read it once. -/
def failedRead : List DeviceAction :=
  .restart :: .act (.start (.encrypt "note")) :: .act (.resume 0 ⟨true, ""⟩) ::
    creating 0 secondKey

/-- The key of the first launch is lost. -/
theorem failedRead_replaces :
    (final (deviceStep plainDevice) ⟨initial none, []⟩ firstLaunch).shared.masterKeyStore =
      some firstKey ∧
    (final (deviceStep plainDevice) ⟨initial none, []⟩
      (firstLaunch ++ failedRead)).shared.masterKeyStore = some secondKey ∧
    firstKey ≠ secondKey := by
  decide

theorem firstLaunch_admissible :
    Along (deviceStep plainDevice) Admissible ⟨initial none, []⟩ firstLaunch := by
  refine ⟨⟨trivial, trivial⟩, ?_, ?_, ?_, ?_, ?_, trivial⟩
  · exact admissible_alone rfl rfl fun h => by cases h
  · exact admissible_alone rfl rfl fun h => by cases h
  · exact admissible_alone rfl rfl fun _ => by decide
  · exact admissible_alone rfl rfl fun h => by cases h
  · exact admissible_alone rfl rfl fun h => by cases h

/-- Another launch reads the key of the first. -/
def laterLaunch : List DeviceAction :=
  [.restart, .act (.start (.decrypt "a.b")), .act (.resume 0 ⟨false, ""⟩),
    .act (.resume 0 ⟨false, ""⟩)]

theorem master_key_kept_sample :
    Keeps plainDevice firstKey (final (deviceStep plainDevice) ⟨initial none, []⟩ firstLaunch)
      laterLaunch := by
  refine (master_key_kept rfl none firstLaunch firstLaunch_admissible).1 laterLaunch firstKey
    ⟨⟨trivial, trivial⟩, ⟨trivial, trivial⟩, ?_, ?_, trivial⟩ (by decide)
  · exact admissible_alone rfl rfl fun h => by cases h
  · exact admissible_alone rfl rfl fun h => by cases h

end NotebookCrypto
