import StellarTimelock.Notebook.Crypto

/-! When an encryption runs on the key it was given: unless the key object is
wiped between the return of `getKey` and the AES operation. -/
namespace NotebookCrypto

open Interleaving Execution

variable {P : Primitives}

/-- The key object an encryption in flight is going to use. -/
def Point.encryptsWith : Point → Option Held
  | .keyed (.encrypt _) key => some key
  | .gettingIv _ key => some key
  | _ => none

/-- The key object an event wipes: the cached one, when the cache is reset or
another seed is registered. -/
def wipes (s : Shared) : Event → Option Nat
  | .setActiveWalletForCrypto wallet =>
      if wallet.map (·.secretSeed) = s.activeWalletForCrypto.map (·.secretSeed) then none
      else s.keyWordArrayCache
  | .resetKeyCache => s.keyWordArrayCache

/-- The step does not wipe a key that an encryption in flight holds. -/
def SparesEncryptions (s : System Shared Point) : Action Task Answer Event → Prop
  | .event e => ∀ cell, wipes s.shared e = some cell →
      ∀ point ∈ s.calls, ∀ key, point.encryptsWith = some key → key.cell ≠ cell
  | _ => True

/-- A key object has been wiped. -/
def Wiped (past : List (Option Observation)) (cell : Nat) : Prop := some (.wiped cell) ∈ past

/-- The cached object is on the heap and intact, and only objects of the heap
have been wiped. -/
structure CacheIntact (past : List (Option Observation)) (s : Shared) : Prop where
  cached : ∀ cell, s.keyWordArrayCache = some cell → cell < s.heap.length ∧ ¬ Wiped past cell
  allocated : ∀ cell, Wiped past cell → cell < s.heap.length

/-- The object is as `getKey` returned it. -/
def KeyIntact (past : List (Option Observation)) (s : Shared) (key : Held) : Prop :=
  s.heap[key.cell]? = some key.returned ∧ ¬ Wiped past key.cell

theorem wiped_concat {past : List (Option Observation)} {o : Option Observation} {cell : Nat} :
    Wiped (past ++ [o]) cell ↔ Wiped past cell ∨ o = some (.wiped cell) := by
  unfold Wiped
  rw [List.mem_append, List.mem_singleton, eq_comm]

theorem not_wiped_concat {past : List (Option Observation)} {o : Option Observation} {cell : Nat}
    (h : ¬ Wiped past cell) (ho : o ≠ some (.wiped cell)) : ¬ Wiped (past ++ [o]) cell := by
  rw [wiped_concat]
  rintro (hPast | hNow)
  · exact h hPast
  · exact ho hNow

theorem KeyPoint.observation_ne_wiped (point : KeyPoint) (cell : Nat) :
    point.observation ≠ .wiped cell := by
  unfold KeyPoint.observation
  split <;> simp

/-- No stretch of a call wipes a key. Only the events do. -/
theorem Stretch.not_wiped {s : Shared} {before : Option Point}
    {turn : Turn Shared Point Observation} (h : Stretch P s before turn) (cell : Nat) :
    some turn.observation ≠ some (.wiped cell) := by
  intro hEq
  rw [Option.some.injEq] at hEq
  cases h with
  | waiting before store task point => exact KeyPoint.observation_ne_wiped point cell hEq
  | _ => cases hEq

/-- A stretch leaves every object of the heap as it is. -/
theorem Stretch.heap_kept {s : Shared} {before : Option Point}
    {turn : Turn Shared Point Observation} (h : Stretch P s before turn) {cell : Nat}
    {content : WordArray} (hContent : s.heap[cell]? = some content) :
    turn.shared.heap[cell]? = some content := by
  have hBound : cell < s.heap.length := by
    obtain ⟨hBound, _⟩ := List.getElem?_eq_some_iff.mp hContent
    exact hBound
  cases h with
  | derived task seed key =>
      show (s.heap ++ [key])[cell]? = some content
      rw [List.getElem?_append_left hBound]
      exact hContent
  | legacy task b64 =>
      show (s.heap ++ [P.base64Parse b64])[cell]? = some content
      rw [List.getElem?_append_left hBound]
      exact hContent
  | _ => exact hContent

theorem Stretch.keyIntact_kept {past : List (Option Observation)} {s : Shared}
    {before : Option Point} {turn : Turn Shared Point Observation} (h : Stretch P s before turn)
    {key : Held} (hKey : KeyIntact past s key) :
    KeyIntact (past ++ [some turn.observation]) turn.shared key :=
  ⟨h.heap_kept hKey.1, not_wiped_concat hKey.2 (h.not_wiped key.cell)⟩

/-- Caching a key in a fresh object keeps the cache intact, since nothing can
have wiped an object that did not exist. -/
theorem CacheIntact.cacheKey {past : List (Option Observation)} {s : Shared}
    (h : CacheIntact past s) (key : WordArray) {o : Observation} (ho : ∀ cell, o ≠ .wiped cell) :
    CacheIntact (past ++ [some o]) (s.cacheKey key) where
  cached cell hCell := by
    cases hCell
    refine ⟨by simp [Shared.cacheKey], ?_⟩
    apply not_wiped_concat
    · intro hWiped
      exact Nat.lt_irrefl _ (h.allocated _ hWiped)
    · intro hEq
      exact ho _ (Option.some.inj hEq)
  allocated cell hCell := by
    rcases wiped_concat.mp hCell with hPast | hNow
    · have hBound := h.allocated cell hPast
      simp only [Shared.cacheKey, List.length_append, List.length_singleton]
      omega
    · exact absurd (Option.some.inj hNow) (ho cell)

/-- A step that keeps heap and cache and wipes nothing. -/
theorem CacheIntact.quiet {past : List (Option Observation)} {s s' : Shared}
    (h : CacheIntact past s) {o : Option Observation} (ho : ∀ cell, o ≠ some (.wiped cell))
    (hHeap : s'.heap = s.heap) (hCache : s'.keyWordArrayCache = s.keyWordArrayCache) :
    CacheIntact (past ++ [o]) s' where
  cached cell hCell := by
    rw [hCache] at hCell
    rw [hHeap]
    obtain ⟨hBound, hIntact⟩ := h.cached cell hCell
    exact ⟨hBound, not_wiped_concat hIntact (ho cell)⟩
  allocated cell hCell := by
    rw [hHeap]
    rcases wiped_concat.mp hCell with hPast | hNow
    · exact h.allocated cell hPast
    · exact absurd hNow (ho cell)

theorem Stretch.cacheIntact {past : List (Option Observation)} {s : Shared}
    {before : Option Point} {turn : Turn Shared Point Observation} (h : Stretch P s before turn)
    (hCache : CacheIntact past s) :
    CacheIntact (past ++ [some turn.observation]) turn.shared := by
  have hWiped := h.not_wiped
  cases h with
  | derived task seed key => exact hCache.cacheKey key (fun cell hEq => by cases hEq)
  | legacy task b64 => exact hCache.cacheKey _ (fun cell hEq => by cases hEq)
  | _ => exact hCache.quiet hWiped rfl rfl

/-- An object of the heap is held as it is. -/
theorem keyIntact_hold {past : List (Option Observation)} {s : Shared} {task : Task} {cell : Nat}
    {key : Held} (hBound : cell < s.heap.length) (hIntact : ¬ Wiped past cell)
    (hKey : (hold s task cell).encryptsWith = some key) : KeyIntact past s key := by
  cases task with
  | decrypt payload => cases hKey
  | encrypt plaintext =>
      cases hKey
      refine ⟨?_, hIntact⟩
      show s.heap[cell]? = some (s.content cell)
      unfold Shared.content
      rw [List.getD_eq_getElem?_getD, List.getElem?_eq_getElem hBound]
      rfl

/-- After a stretch an encryption holds the intact cached object, or the one
that it held before. -/
theorem Stretch.keyIntact {past : List (Option Observation)} {s : Shared}
    {before : Option Point} {turn : Turn Shared Point Observation} (h : Stretch P s before turn)
    (hCache : CacheIntact past s) {key : Held} (hKey : turn.point.encryptsWith = some key) :
    KeyIntact (past ++ [some turn.observation]) turn.shared key ∨
      ∃ point, before = some point ∧ point.encryptsWith = some key := by
  have hAfter := h.cacheIntact hCache
  cases h with
  | cached task cell hCell =>
      obtain ⟨hBound, hIntact⟩ := hAfter.cached cell hCell
      exact Or.inl (keyIntact_hold hBound hIntact hKey)
  | derived task seed key =>
      obtain ⟨hBound, hIntact⟩ := hAfter.cached s.heap.length rfl
      exact Or.inl (keyIntact_hold hBound hIntact hKey)
  | legacy task b64 =>
      obtain ⟨hBound, hIntact⟩ := hAfter.cached s.heap.length rfl
      exact Or.inl (keyIntact_hold hBound hIntact hKey)
  | requestIv plaintext held => exact Or.inr ⟨_, rfl, hKey⟩
  | waiting => cases hKey
  | encrypted => cases hKey
  | decrypted => cases hKey
  | finished => cases hKey

/-- What an event does to heap and cache: nothing, or the wipe of one object
that the cache then no longer has. -/
theorem event_wipes (s : Shared) (e : Event) :
    (∃ wallet, event s e = ({ s with activeWalletForCrypto := wallet }, .quiet)) ∧
        wipes s e = none ∨
    (∃ wallet, event s e =
        ({ s.wipeCache with activeWalletForCrypto := wallet }, s.wipeObservation)) ∧
        wipes s e = s.keyWordArrayCache := by
  have hChange := event_change s e
  generalize event s e = after at hChange
  cases hChange with
  | same wallet hSeed => exact Or.inl ⟨⟨wallet, rfl⟩, if_pos hSeed⟩
  | switched wallet hSeed => exact Or.inr ⟨⟨wallet, rfl⟩, if_neg hSeed⟩
  | reset =>
      have hSame : { s.wipeCache with activeWalletForCrypto := s.activeWalletForCrypto } =
          s.wipeCache := by
        unfold Shared.wipeCache
        split <;> rfl
      exact Or.inr ⟨⟨s.activeWalletForCrypto, by rw [hSame]⟩, rfl⟩

theorem event_observed {s : Shared} {e : Event} {cell : Nat} (h : wipes s e = some cell) :
    (event s e).2 = .wiped cell := by
  rcases event_wipes s e with ⟨_, hWipes⟩ | ⟨⟨wallet, hEvent⟩, hWipes⟩
  · rw [hWipes] at h
    cases h
  · rw [hEvent]
    simp only [Shared.wipeObservation, hWipes.symm.trans h]

/-- A wipe keeps the cache intact by emptying it, and spares every key but the
cached one. -/
theorem wipe_intact {past : List (Option Observation)} {s : Shared} (wallet : Option Wallet)
    (hCache : CacheIntact past s) :
    CacheIntact (past ++ [some s.wipeObservation])
        { s.wipeCache with activeWalletForCrypto := wallet } ∧
      ∀ key, KeyIntact past s key → s.keyWordArrayCache ≠ some key.cell →
        KeyIntact (past ++ [some s.wipeObservation])
          { s.wipeCache with activeWalletForCrypto := wallet } key := by
  cases hCell : s.keyWordArrayCache with
  | none =>
      have hWipe : s.wipeCache = s := by simp only [Shared.wipeCache, hCell]
      have hQuiet : s.wipeObservation = .quiet := by simp only [Shared.wipeObservation, hCell]
      rw [hWipe, hQuiet]
      refine ⟨hCache.quiet (fun cell hEq => by cases hEq) rfl rfl, ?_⟩
      intro key hKey _
      exact ⟨hKey.1, not_wiped_concat hKey.2 (fun hEq => by cases hEq)⟩
  | some cell =>
      have hWipe : s.wipeCache =
          { s with
            heap := s.heap.modify cell wipeWordArray
            keyWordArrayCache := none } := by simp only [Shared.wipeCache, hCell]
      have hWiped : s.wipeObservation = .wiped cell := by simp only [Shared.wipeObservation, hCell]
      rw [hWipe, hWiped]
      refine ⟨⟨fun other hOther => absurd hOther.symm (Option.some_ne_none other), ?_⟩, ?_⟩
      · intro other hOther
        rw [List.length_modify]
        rcases wiped_concat.mp hOther with hPast | hNow
        · exact hCache.allocated other hPast
        · cases hNow
          exact (hCache.cached cell hCell).1
      · intro key hKey hSpared
        have hOther : cell ≠ key.cell := fun hEq => hSpared (congrArg some hEq)
        refine ⟨?_, not_wiped_concat hKey.2 (fun hEq => hOther ?_)⟩
        · show (s.heap.modify cell wipeWordArray)[key.cell]? = some key.returned
          rw [List.getElem?_modify_ne _ _ hOther]
          exact hKey.1
        · cases hEq
          rfl

/-- An event keeps the cache intact, and each key object except the one that it
wipes. -/
theorem event_intact {past : List (Option Observation)} {s : Shared} (e : Event)
    (hCache : CacheIntact past s) :
    CacheIntact (past ++ [some (event s e).2]) (event s e).1 ∧
      ∀ key, KeyIntact past s key → wipes s e ≠ some key.cell →
        KeyIntact (past ++ [some (event s e).2]) (event s e).1 key := by
  rcases event_wipes s e with ⟨⟨wallet, hEvent⟩, _⟩ | ⟨⟨wallet, hEvent⟩, hWipes⟩
  · rw [hEvent]
    refine ⟨hCache.quiet (fun cell hEq => by cases hEq) rfl rfl, ?_⟩
    intro key hKey _
    exact ⟨hKey.1, not_wiped_concat hKey.2 (fun hEq => by cases hEq)⟩
  · rw [hEvent, hWipes]
    exact wipe_intact wallet hCache

/-- What holds of a key that `getKey` has just returned, and survives every
stretch and every admissible event, holds of the keys of all encryptions in
flight. -/
theorem keys_outline {admissible : System Shared Point → Action Task Answer Event → Prop}
    {holds : List (Option Observation) → Shared → Held → Prop}
    (hNew : ∀ past s key, KeyIntact past s key → holds past s key)
    (hStretch : ∀ past s before turn key, Stretch P s before turn → holds past s key →
      holds (past ++ [some turn.observation]) turn.shared key)
    (hEvent : ∀ past s e point key, CacheIntact past s.shared → admissible s (.event e) →
      point ∈ s.calls → point.encryptsWith = some key → holds past s.shared key →
      holds (past ++ [some (event s.shared e).2]) (event s.shared e).1 key)
    (hIdle : ∀ past s key, holds past s key → holds (past ++ [none]) s key) :
    Outline (program P) admissible CacheIntact
      (fun past s point => ∀ key, point.encryptsWith = some key → holds past s key) where
  start past s task hJ hA _ := by
    have hTurn : Stretch P s.shared none ((program P).start s.shared task) :=
      start_stretch s.shared task
    refine ⟨hTurn.cacheIntact hJ, ?_, ?_⟩
    · intro key hKey
      rcases hTurn.keyIntact hJ hKey with hIntact | ⟨point, hPoint, _⟩
      · exact hNew _ _ key hIntact
      · cases hPoint
    · intro point hPoint key hKey
      exact hStretch _ _ _ _ key hTurn (hA point hPoint key hKey)
  resume past s number point answer hJ hA hPoint _ := by
    have hTurn : Stretch P s.shared (some point) ((program P).resume s.shared point answer) :=
      resume_stretch s.shared point answer
    refine ⟨hTurn.cacheIntact hJ, ?_, ?_⟩
    · intro key hKey
      rcases hTurn.keyIntact hJ hKey with hIntact | ⟨before, hBefore, hHeld⟩
      · exact hNew _ _ key hIntact
      · cases hBefore
        exact hStretch _ _ _ _ key hTurn (hA point (List.mem_of_getElem? hPoint) key hHeld)
    · intro _ other _ hOther key hKey
      exact hStretch _ _ _ _ key hTurn (hA other (List.mem_of_getElem? hOther) key hKey)
  event past s e hJ hA hAdmissible := by
    refine ⟨(event_intact e hJ).1, ?_⟩
    intro point hPoint key hKey
    exact hEvent past s e point key hJ hAdmissible hPoint hKey (hA point hPoint key hKey)
  idle past s hJ := by
    refine ⟨hJ.quiet (fun cell hEq => by cases hEq) rfl rfl, ?_⟩
    intro point hPoint key hKey
    exact hIdle past s key (hPoint key hKey)

theorem keyIntact_idle {past : List (Option Observation)} {s : Shared} {key : Held}
    (h : KeyIntact past s key) : KeyIntact (past ++ [none]) s key :=
  ⟨h.1, not_wiped_concat h.2 (fun hEq => by cases hEq)⟩

/-- Any interleaving that spares the encryptions in flight keeps their keys. -/
theorem keyIntact_outline : Outline (program P) SparesEncryptions CacheIntact
    (fun past s point => ∀ key, point.encryptsWith = some key → KeyIntact past s key) := by
  apply keys_outline
  · exact fun _ _ _ hKey => hKey
  · exact fun _ _ _ _ _ hTurn hKey => hTurn.keyIntact_kept hKey
  · intro past s e point key hCache hSpares hPoint hHeld hKey
    exact (event_intact e hCache).2 key hKey
      (fun hWipes => hSpares key.cell hWipes point hPoint key hHeld rfl)
  · exact fun _ _ _ hKey => keyIntact_idle hKey

/-- Any interleaving at all keeps the keys that it does not wipe. -/
theorem keyTracked_outline : Outline (program P) (fun _ _ => True) CacheIntact
    (fun past s point => ∀ key, point.encryptsWith = some key →
      KeyIntact past s key ∨ Wiped past key.cell) := by
  apply keys_outline
  · exact fun _ _ _ hKey => Or.inl hKey
  · intro past s before turn key hTurn hKey
    exact hKey.imp hTurn.keyIntact_kept (fun hWiped => wiped_concat.mpr (Or.inl hWiped))
  · intro past s e point key hCache _ hPoint hHeld hKey
    rcases hKey with hIntact | hWiped
    · by_cases hWipes : wipes s.shared e = some key.cell
      · right
        exact wiped_concat.mpr (Or.inr (congrArg some (event_observed hWipes)))
      · exact Or.inl ((event_intact e hCache).2 key hIntact hWipes)
    · exact Or.inr (wiped_concat.mpr (Or.inl hWiped))
  · exact fun _ _ _ hKey =>
      hKey.imp keyIntact_idle (fun hWiped => wiped_concat.mpr (Or.inl hWiped))

/-- An intact key is what AES reads from the heap. -/
theorem KeyIntact.content {past : List (Option Observation)} {s : Shared} {key : Held}
    (h : KeyIntact past s key) : s.content key.cell = key.returned := by
  rw [Shared.content, List.getD_eq_getElem?_getD, h.1]
  rfl

theorem cacheIntact_initial (stored : Option String) : CacheIntact [] (initial stored) where
  cached _ hCell := absurd hCell.symm (Option.some_ne_none _)
  allocated _ hCell := absurd hCell List.not_mem_nil

/-- The trace shows an encryption whose AES operation ran on a key object that
had been wiped. -/
def UsesWipedKey (observed : List (Option Observation)) : Prop :=
  ∃ past key used registered payload future,
    observed = past ++ some (.encrypted key used registered payload) :: future ∧
      Wiped past key.cell

/-- An AES operation is a stretch of a call that waited for its IV. -/
theorem Stretch.encrypted_point {s : Shared} {before : Option Point}
    {turn : Turn Shared Point Observation} (h : Stretch P s before turn) {key : Held}
    {used : WordArray} {registered : Option String} {payload : String}
    (hObserved : turn.observation = .encrypted key used registered payload) :
    ∃ plaintext, before = some (.gettingIv plaintext key) := by
  cases h with
  | waiting before store task point =>
      change point.observation = _ at hObserved
      unfold KeyPoint.observation at hObserved
      split at hObserved <;> cases hObserved
  | encrypted plaintext iv held =>
      cases hObserved
      exact ⟨plaintext, rfl⟩
  | _ => cases hObserved

theorem resume_encrypted {s : Shared} {point : Point} {answer : Answer} {key : Held}
    {used : WordArray} {registered : Option String} {payload : String}
    (h : (resume P s point answer).observation = .encrypted key used registered payload) :
    ∃ plaintext, point = .gettingIv plaintext key ∧ answer.fails = false ∧
      used = s.content key.cell ∧ registered = s.seed ∧
      payload = P.aesEncrypt used answer.bytes plaintext := by
  obtain ⟨plaintext, hPoint⟩ := (resume_stretch s point answer).encrypted_point h
  cases hPoint
  simp only [resume] at h
  split at h
  · cases h
  · next hFails =>
      cases h
      exact ⟨plaintext, rfl, Bool.not_eq_true _ ▸ hFails, rfl, rfl, rfl⟩

/-- The AES operation of a call in flight is observed when its IV arrives. -/
theorem encrypted_of_step {s : System Shared Point} {a : Action Task Answer Event} {key : Held}
    {used : WordArray} {registered : Option String} {payload : String}
    (h : (step (program P) s a).2 = some (.encrypted key used registered payload)) :
    ∃ number answer plaintext, a = .resume number answer ∧
      s.calls[number]? = some (.gettingIv plaintext key) ∧ answer.fails = false ∧
      used = s.shared.content key.cell ∧ registered = s.shared.seed ∧
      payload = P.aesEncrypt used answer.bytes plaintext := by
  cases a with
  | start task =>
      obtain ⟨plaintext, hPoint⟩ :=
        (start_stretch (P := P) s.shared task).encrypted_point (Option.some.inj h)
      cases hPoint
  | resume number answer =>
      cases hPoint : s.calls[number]? with
      | none =>
          rw [step_resume_none hPoint] at h
          cases h
      | some point =>
          rw [step_resume_some hPoint] at h
          obtain ⟨plaintext, rfl, hRest⟩ := resume_encrypted (P := P) (Option.some.inj h)
          exact ⟨number, answer, plaintext, rfl, hPoint, hRest⟩
  | event e =>
      have hObserved : (event s.shared e).2 = .encrypted key used registered payload :=
        Option.some.inj h
      rcases event_wipes s.shared e with ⟨⟨wallet, hEvent⟩, _⟩ | ⟨⟨wallet, hEvent⟩, _⟩
      · rw [hEvent] at hObserved
        cases hObserved
      · rw [hEvent] at hObserved
        change s.shared.wipeObservation = _ at hObserved
        unfold Shared.wipeObservation at hObserved
        split at hObserved <;> cases hObserved

/-- An encryption that waits for its IV encrypts as soon as it is resumed. -/
theorem encrypts_of_gettingIv (s : System Shared Point) {number : Nat} {plaintext : String}
    {key : Held} (hPoint : s.calls[number]? = some (.gettingIv plaintext key)) :
    ∃ used registered payload, trace (step (program P)) s [.resume number ⟨false, ""⟩] =
      [some (.encrypted key used registered payload)] := by
  have hLast := step_resume_some (P := program P) hPoint ⟨false, ""⟩
  refine ⟨s.shared.content key.cell, s.shared.seed,
    P.aesEncrypt (s.shared.content key.cell) "" plaintext, ?_⟩
  rw [trace, trace, hLast]
  rfl

/-- An encryption in flight can be taken to its AES operation. -/
theorem encrypts_of_encryptsWith (s : System Shared Point) {number : Nat} {point : Point}
    {key : Held} (hPoint : s.calls[number]? = some point)
    (hKey : point.encryptsWith = some key) :
    ∃ more past used registered payload, trace (step (program P)) s more =
      past ++ [some (.encrypted key used registered payload)] := by
  cases point with
  | gettingKey task point => cases hKey
  | finished result => cases hKey
  | gettingIv plaintext held =>
      cases hKey
      obtain ⟨used, registered, payload, hTrace⟩ := encrypts_of_gettingIv (P := P) s hPoint
      exact ⟨[.resume number ⟨false, ""⟩], [], used, registered, payload, hTrace⟩
  | keyed task held =>
      cases task with
      | decrypt payload => cases hKey
      | encrypt plaintext =>
          cases hKey
          let s' : System Shared Point :=
            { s with calls := s.calls.set number (.gettingIv plaintext key) }
          have hFirst : step (program P) s (.resume number ⟨false, ""⟩) = (s', some .quiet) :=
            step_resume_some (P := program P) hPoint ⟨false, ""⟩
          have hBound : number < s.calls.length := (List.getElem?_eq_some_iff.mp hPoint).1
          have hNext : s'.calls[number]? = some (.gettingIv plaintext key) :=
            List.getElem?_set_self hBound
          obtain ⟨used, registered, payload, hTrace⟩ := encrypts_of_gettingIv (P := P) s' hNext
          refine ⟨[.resume number ⟨false, ""⟩, .resume number ⟨false, ""⟩], [some .quiet], used,
            registered, payload, ?_⟩
          rw [trace, hFirst, hTrace]
          rfl

/-- From any state in which an event wipes a key that an encryption in flight
holds, letting that encryption go on makes it use the wiped key. -/
theorem usesWipedKey_of_wipe (s : System Shared Point) (e : Event) {number : Nat}
    {point : Point} {key : Held} (hWipes : wipes s.shared e = some key.cell)
    (hPoint : s.calls[number]? = some point) (hKey : point.encryptsWith = some key) :
    ∃ more, UsesWipedKey (trace (step (program P)) s (.event e :: more)) := by
  have hWiped : (step (program P) s (.event e)).2 = some (.wiped key.cell) :=
    congrArg some (event_observed hWipes)
  obtain ⟨more, past, used, registered, payload, hTrace⟩ :=
    encrypts_of_encryptsWith (P := P) (step (program P) s (.event e)).1 hPoint hKey
  refine ⟨more, some (.wiped key.cell) :: past, key, used, registered, payload, [], ?_,
    List.mem_cons_self⟩
  rw [trace, hWiped, hTrace]
  rfl

/-- Every encryption of a run that never wipes a key held by an encryption in
flight has used the key exactly as `getKey` returned it, and no encryption has
used a wiped one. A step that does wipe such a key can be followed by steps
after which an encryption has used it. -/
theorem encryption_key_intact (stored : Option String) (as : List (Action Task Answer Event)) :
    (Along (step (program P)) SparesEncryptions ⟨initial stored, []⟩ as →
      ∀ past future key used registered payload,
        trace (step (program P)) ⟨initial stored, []⟩ as =
          past ++ some (.encrypted key used registered payload) :: future →
        used = key.returned ∧ ¬ Wiped past key.cell ∧
          ∃ iv plaintext, payload = P.aesEncrypt key.returned iv plaintext) ∧
    ∀ a, ¬ SparesEncryptions (final (step (program P)) ⟨initial stored, []⟩ as) a →
      ∃ more, UsesWipedKey (trace (step (program P)) ⟨initial stored, []⟩ (as ++ a :: more)) := by
  constructor
  · intro hAlong past future key used registered payload hTrace
    obtain ⟨before, a, after, rfl, rfl, hObserved⟩ := trace_split (step (program P)) hTrace
    have hBefore := ((along_append (step (program P)) SparesEncryptions _ before (a :: after)).mp
      hAlong).1
    obtain ⟨_, hKeys⟩ := keyIntact_outline.along (cacheIntact_initial stored) before hBefore
    obtain ⟨number, answer, plaintext, _, hPoint, _, hUsed, _, hPayload⟩ :=
      encrypted_of_step hObserved
    have hIntact := hKeys _ (List.mem_of_getElem? hPoint) key rfl
    have hSame : used = key.returned := hUsed.trans hIntact.content
    exact ⟨hSame, hIntact.2, answer.bytes, plaintext, hSame ▸ hPayload⟩
  · intro a hViolates
    cases a with
    | start task => exact absurd trivial hViolates
    | resume number answer => exact absurd trivial hViolates
    | event e =>
        simp only [SparesEncryptions, not_forall, ne_eq, not_not, exists_prop] at hViolates
        obtain ⟨_, hWipes, point, hMem, key, hKey, rfl⟩ := hViolates
        obtain ⟨number, hPoint⟩ := List.mem_iff_getElem?.mp hMem
        obtain ⟨more, past, held, used, registered, payload, future, hTrace, hWiped⟩ :=
          usesWipedKey_of_wipe (P := P) _ e hWipes hPoint hKey
        refine ⟨more, trace (step (program P)) ⟨initial stored, []⟩ as ++ past, held, used,
          registered, payload, future, ?_, List.mem_append_right _ hWiped⟩
        rw [trace_append, hTrace, List.append_assoc]

/-- Primitives that tell two wallets, two device keys and a wiped key apart. -/
def samplePrimitives : Primitives where
  platform := .native
  pbkdf2 seed := some ⟨List.replicate 8 (if seed = "SA" then 1 else 2), 32⟩
  base64Parse text := ⟨List.replicate 8 (BitVec.ofNat 32 (text.toList.headD '=').toNat), 32⟩
  aesEncrypt key iv plaintext :=
    if key.sigBytes = 0 then iv ++ ".constant" else iv ++ "." ++ plaintext
  aesDecrypt _ payload := some payload

/-- The wallet is switched while an encryption waits for its IV. -/
def switchedRun : List (Action Task Answer Event) :=
  [.event (.setActiveWalletForCrypto (some ⟨"GA", "SA"⟩)), .start (.encrypt "note"),
    .resume 0 ⟨false, ""⟩, .event (.setActiveWalletForCrypto (some ⟨"GB", "SB"⟩)),
    .resume 0 ⟨false, "iv"⟩]

/-- The record is then made under the wiped key object. -/
theorem switchedRun_encrypts : ∃ key used registered payload,
    some (.encrypted key used registered payload) ∈
      trace (step (program samplePrimitives)) ⟨initial none, []⟩ switchedRun ∧
    used = wipeWordArray key.returned ∧ used ≠ key.returned := by
  refine ⟨⟨0, ⟨List.replicate 8 1, 32⟩, some "SA"⟩, ⟨List.replicate 8 0, 0⟩, some "SB",
    "iv.constant", ?_, ?_, ?_⟩
  · decide
  · decide
  · decide

/-- The same steps, with the switch after the encryption. -/
def finishedRun : List (Action Task Answer Event) :=
  [.event (.setActiveWalletForCrypto (some ⟨"GA", "SA"⟩)), .start (.encrypt "note"),
    .resume 0 ⟨false, ""⟩, .resume 0 ⟨false, "iv"⟩,
    .event (.setActiveWalletForCrypto (some ⟨"GB", "SB"⟩))]

theorem finishedRun_spares :
    Along (step (program samplePrimitives)) SparesEncryptions ⟨initial none, []⟩ finishedRun := by
  refine ⟨?_, trivial, trivial, trivial, ?_, trivial⟩
  · intro cell hCell
    cases hCell
  · intro cell _ point hPoint key hKey
    cases List.mem_singleton.mp hPoint
    cases hKey

theorem encryption_key_intact_sample : ∀ past future key used registered payload,
    trace (step (program samplePrimitives)) ⟨initial none, []⟩ finishedRun =
      past ++ some (.encrypted key used registered payload) :: future →
    used = key.returned ∧ ¬ Wiped past key.cell ∧
      ∃ iv plaintext, payload = samplePrimitives.aesEncrypt key.returned iv plaintext :=
  (encryption_key_intact (P := samplePrimitives) none finishedRun).1 finishedRun_spares

end NotebookCrypto
