import StellarTimelock.Notebook.MasterKey
import StellarTimelock.Notebook.KeyInUse

/-! When the cached key is the key of the registered wallet or, without one,
the key the device has stored, and under which key records are made. Two things
spoil it: a device key cached after the registration of a wallet, and a device
key stored while another one is in use. -/
namespace NotebookCrypto

open Interleaving Execution

variable {P : Primitives}

variable (P) in
/-- The device master key: the stored text, which the next launch reads, or the
fixed text of a browser without `localStorage`. -/
def deviceKey (s : Shared) : Option String :=
  if P.platform = .web false then some "web-fallback-key-plaintext-only" else s.masterKeyStore

/-- The cached object holds the key that goes with the registered wallet: the
PBKDF2 key of its seed, or without a wallet the device master key. -/
structure Coherent (P : Primitives) (s : Shared) : Prop where
  wallet : ∀ cell seed, s.keyWordArrayCache = some cell → s.seed = some seed →
    ∃ key, P.pbkdf2 seed = some key ∧ s.heap[cell]? = some key
  device : ∀ cell, s.keyWordArrayCache = some cell → s.activeWalletForCrypto = none →
    ∃ b64, deviceKey P s = some b64 ∧ s.heap[cell]? = some (P.base64Parse b64)

/-- The device key that a call has found, or has created and tried to store. -/
def KeyPoint.carries : KeyPoint → Option String
  | .read found => usable found
  | .written b64 => some b64
  | .returned b64 => some b64
  | _ => none

/-- The device key that a stretch from here leaves in the store, if any. In a
browser the write follows the generation at once. -/
def KeyPoint.stores (P : Primitives) (answer : Answer) : KeyPoint → Option String
  | .writing created => if answer.fails then none else some created
  | .generated created => if P.platform = .native ∨ answer.fails then none else some created
  | _ => none

/-- A call on its way to the device key carries no other than the stored one,
and where there is no store it has the fixed text already. -/
structure KeyPoint.Knows (P : Primitives) (s : Shared) (point : KeyPoint) : Prop where
  carries : ∀ key, point.carries = some key → deviceKey P s = some key
  stored : P.platform = .web false → ∃ b64, point = .returned b64

/-- What a suspended call knows: its device key is the stored one, and the key
of its encryption is that of the seed it was returned under. -/
structure Accounted (P : Primitives) (s : Shared) (point : Point) : Prop where
  device : ∀ task kp, point = .gettingKey task kp → kp.Knows P s
  wallet : ∀ key seed, point.encryptsWith = some key → key.under = some seed →
    P.pbkdf2 seed = some key.returned

/-- A device key is cached only while no seed is registered, and a record is
made only under the seed that its key was returned under. -/
def RespectsWallet (s : Shared) (answer : Answer) : Point → Prop
  | .gettingKey _ (.returned _) => s.seed = none
  | .gettingIv _ key => answer.fails = false → ∀ seed, s.seed = some seed → key.under = some seed
  | _ => True

/-- A write of the device key succeeds, and when a key is stored no other one is
cached for a device without a wallet, or carried by another call. -/
structure RespectsStore (P : Primitives) (s : System Shared Point) (number : Nat)
    (answer : Answer) (kp : KeyPoint) : Prop where
  succeeds : ∀ created, kp = .writing created → answer.fails = false
  cached : ∀ created cell, kp.stores P answer = some created →
    s.shared.keyWordArrayCache = some cell → s.shared.activeWalletForCrypto = none →
    s.shared.heap[cell]? = some (P.base64Parse created)
  alone : ∀ created other task point key, kp.stores P answer = some created → other ≠ number →
    s.calls[other]? = some (.gettingKey task point) → point.carries = some key → key = created

/-- The same of a step of the whole system. -/
def Respects (P : Primitives) (s : System Shared Point) : Action Task Answer Event → Prop
  | .resume number answer => ∀ point, s.calls[number]? = some point →
      RespectsWallet s.shared answer point ∧
        ∀ task kp, point = .gettingKey task kp → RespectsStore P s number answer kp
  | _ => True

/-! What an undisturbed stretch keeps. -/

theorem deviceKey_congr {s s' : Shared} (h : s'.masterKeyStore = s.masterKeyStore) :
    deviceKey P s' = deviceKey P s := by
  unfold deviceKey
  rw [h]

theorem deviceKey_store (hStore : P.platform ≠ .web false) (s : Shared) :
    deviceKey P s = s.masterKeyStore := if_neg hStore

/-- What a call knows stays true while the store stays. -/
theorem Accounted.congr {s s' : Shared} {point : Point} (h : Accounted P s point)
    (hStore : s'.masterKeyStore = s.masterKeyStore) : Accounted P s' point where
  device task kp hPoint :=
    { carries := fun key hKey => (deviceKey_congr hStore).trans ((h.device task kp hPoint).carries key hKey)
      stored := (h.device task kp hPoint).stored }
  wallet := h.wallet

/-- Coherence only looks at heap, cache, registered wallet and store. -/
theorem Coherent.congr {s s' : Shared} (h : Coherent P s) (hHeap : s'.heap = s.heap)
    (hCache : s'.keyWordArrayCache = s.keyWordArrayCache)
    (hSeed : s'.activeWalletForCrypto.map (·.secretSeed) =
      s.activeWalletForCrypto.map (·.secretSeed))
    (hStore : s'.masterKeyStore = s.masterKeyStore) : Coherent P s' where
  wallet cell seed hCell hRegistered := by
    rw [hCache] at hCell
    rw [Shared.seed, hSeed] at hRegistered
    rw [hHeap]
    exact h.wallet cell seed hCell hRegistered
  device cell hCell hWallet := by
    rw [hCache] at hCell
    rw [hHeap, deviceKey_congr hStore]
    have hNone : s.activeWalletForCrypto = none := by
      rw [hWallet, Option.map_none] at hSeed
      exact Option.map_eq_none_iff.mp hSeed.symm
    exact h.device cell hCell hNone

theorem coherent_of_uncached {s : Shared} (h : s.keyWordArrayCache = none) : Coherent P s where
  wallet cell _ hCell _ := absurd (h.symm.trans hCell) (Option.some_ne_none cell).symm
  device cell hCell _ := absurd (h.symm.trans hCell) (Option.some_ne_none cell).symm

/-- A fresh key is cached coherently if it is the key of the registered seed,
or, without a registered wallet, the device master key that is stored. -/
theorem coherent_cacheKey {s : Shared} {key : WordArray}
    (hWallet : ∀ seed, s.seed = some seed → P.pbkdf2 seed = some key)
    (hDevice : s.activeWalletForCrypto = none →
      ∃ b64, deviceKey P s = some b64 ∧ key = P.base64Parse b64) :
    Coherent P (s.cacheKey key) := by
  have hFresh : (s.cacheKey key).heap[s.heap.length]? = some key := List.getElem?_concat_length
  constructor
  · intro cell seed hCell hSeed
    cases hCell
    exact ⟨key, hWallet seed hSeed, hFresh⟩
  · intro cell hCell hNone
    cases hCell
    obtain ⟨b64, hStored, rfl⟩ := hDevice hNone
    exact ⟨b64, hStored, hFresh⟩

/-- A key is stored coherently where the cache has no other device key. -/
theorem coherent_store {s : Shared} {created : String} (h : Coherent P s)
    (hStore : P.platform ≠ .web false)
    (hCached : ∀ cell, s.keyWordArrayCache = some cell → s.activeWalletForCrypto = none →
      s.heap[cell]? = some (P.base64Parse created)) :
    Coherent P { s with masterKeyStore := some created } where
  wallet := h.wallet
  device cell hCell hNone := ⟨created, deviceKey_store hStore _, hCached cell hCell hNone⟩

/-- A call that goes on with a coherent cache knows whose key it holds. -/
theorem Coherent.accounted_hold {s : Shared} (h : Coherent P s) {cell : Nat}
    (hCell : s.keyWordArrayCache = some cell) (task : Task) :
    Accounted P s (hold s task cell) where
  device task' kp hPoint := by cases hPoint
  wallet key seed hKey hUnder := by
    cases task with
    | decrypt payload => cases hKey
    | encrypt plaintext =>
        cases hKey
        obtain ⟨key, hDerived, hContent⟩ := h.wallet cell seed hCell hUnder
        show P.pbkdf2 seed = some (s.content cell)
        rw [hDerived, Shared.content, List.getD_eq_getElem?_getD, hContent]
        rfl

theorem accounted_finished (s : Shared) (result : Option String) :
    Accounted P s (.finished result) where
  device task kp hPoint := by cases hPoint
  wallet key seed hKey := by cases hKey

/-- A call that goes on towards the device key holds no key yet. -/
theorem accounted_gettingKey {s : Shared} {task : Task} {kp : KeyPoint} (h : kp.Knows P s) :
    Accounted P s (.gettingKey task kp) where
  device task' kp' hPoint := by
    cases hPoint
    exact h
  wallet key seed hKey := by cases hKey

theorem readOrCreateMasterKey_knows (s : Shared) : (readOrCreateMasterKey P s).Knows P s := by
  unfold readOrCreateMasterKey
  split
  · next hNative =>
      refine ⟨fun key hKey => (by cases hKey), fun hWeb => ?_⟩
      rw [hNative] at hWeb
      cases hWeb
  · next hWeb =>
      refine ⟨?_, fun _ => ⟨_, rfl⟩⟩
      intro key hKey
      cases hKey
      exact if_pos hWeb
  · next hWeb =>
      have hStore : P.platform ≠ .web false := by
        rw [hWeb]
        decide
      split
      · next existing hExisting =>
          refine ⟨?_, fun hNone => absurd hNone hStore⟩
          intro key hKey
          cases hKey
          rw [deviceKey_store hStore]
          exact (Option.filter_eq_some_iff.mp hExisting).1
      · exact ⟨fun key hKey => (by cases hKey), fun hNone => absurd hNone hStore⟩

/-- The first stretch of `getKey` caches the PBKDF2 key of the registered seed,
or leaves the shared variables alone. -/
theorem getKey_keeps {s : Shared} (h : Coherent P s) (task : Task) :
    Coherent P (getKey P s task).shared ∧
      Accounted P (getKey P s task).shared (getKey P s task).point ∧
      (getKey P s task).shared.masterKeyStore = s.masterKeyStore := by
  unfold getKey
  split
  · next cell hCell => exact ⟨h, h.accounted_hold hCell task, rfl⟩
  · split
    · next seed hSeed =>
        split
        · exact ⟨h, accounted_finished s none, rfl⟩
        · next key hKey =>
            have hAfter : Coherent P (s.cacheKey key) := by
              apply coherent_cacheKey
              · intro registered hRegistered
                cases hSeed.symm.trans hRegistered
                exact hKey
              · intro hNone
                rw [Shared.seed, hNone] at hSeed
                cases hSeed
            exact ⟨hAfter, hAfter.accounted_hold rfl task, rfl⟩
    · exact ⟨h, accounted_gettingKey (readOrCreateMasterKey_knows s), rfl⟩

theorem start_keeps {s : Shared} (h : Coherent P s) (task : Task) :
    Coherent P (start P s task).shared ∧
      Accounted P (start P s task).shared (start P s task).point ∧
      (start P s task).shared.masterKeyStore = s.masterKeyStore := by
  unfold start
  split
  · exact getKey_keeps h _
  · split
    · exact getKey_keeps h _
    · exact ⟨h, accounted_finished s _, rfl⟩

/-- On the way to the device key nothing changes but the store, by the key that
the stretch stores, and the call goes on with the stored key or none. -/
theorem resumeKey_keeps {s : Shared} {kp : KeyPoint} (h : kp.Knows P s) (task : Task)
    (answer : Answer) (hWrites : ∀ created, kp = .writing created → answer.fails = false)
    (hOn : ∀ b64, kp ≠ .returned b64) :
    ((resumeKey P s task kp answer).shared = s ∨ ∃ created, kp.stores P answer = some created ∧
        (resumeKey P s task kp answer).shared = { s with masterKeyStore := some created }) ∧
      Accounted P (resumeKey P s task kp answer).shared (resumeKey P s task kp answer).point := by
  have hStore : P.platform ≠ .web false := by
    intro hNone
    obtain ⟨b64, hReturned⟩ := h.stored hNone
    exact hOn b64 hReturned
  have hSearching (s : Shared) {kp : KeyPoint} (hNone : kp.carries = none) : kp.Knows P s :=
    ⟨fun key hKey => (by rw [hNone] at hKey; cases hKey), fun hWeb => absurd hWeb hStore⟩
  have hFound (s : Shared) {kp : KeyPoint} {b64 : String} (hCarries : kp.carries = some b64)
      (hDevice : deviceKey P s = some b64) : kp.Knows P s :=
    ⟨fun key hKey => hDevice.trans (hCarries.symm.trans hKey), fun hWeb => absurd hWeb hStore⟩
  cases kp with
  | reading =>
      refine ⟨Or.inl rfl, accounted_gettingKey ⟨?_, fun hWeb => absurd hWeb hStore⟩⟩
      intro key hKey
      rw [deviceKey_store hStore]
      have hRead := (usable_eq_some.mp hKey).1
      split at hRead
      · cases hRead
      · exact hRead
  | read found =>
      simp only [resumeKey]
      split
      · next existing hExisting =>
          exact ⟨Or.inl rfl, accounted_gettingKey (hFound s rfl (h.carries existing hExisting))⟩
      · exact ⟨Or.inl rfl, accounted_gettingKey (hSearching s rfl)⟩
  | generating =>
      simp only [resumeKey]
      split
      · exact ⟨Or.inl rfl, accounted_finished s none⟩
      · exact ⟨Or.inl rfl, accounted_gettingKey (hSearching s rfl)⟩
  | generated created =>
      simp only [resumeKey]
      split
      · exact ⟨Or.inl rfl, accounted_gettingKey (hSearching s rfl)⟩
      · next available hWeb =>
          split
          · exact ⟨Or.inl rfl, accounted_finished s none⟩
          · next hAnswers =>
              refine ⟨Or.inr ⟨created, ?_, rfl⟩,
                accounted_gettingKey (hFound _ rfl (deviceKey_store hStore _))⟩
              simp only [KeyPoint.stores, hWeb, reduceCtorEq, hAnswers, or_self, if_false]
  | writing created =>
      simp only [resumeKey, hWrites created rfl, Bool.false_eq_true, if_false]
      refine ⟨Or.inr ⟨created, ?_, rfl⟩,
        accounted_gettingKey (hFound _ rfl (deviceKey_store hStore _))⟩
      simp only [KeyPoint.stores, hWrites created rfl, Bool.false_eq_true, if_false]
  | written created =>
      exact ⟨Or.inl rfl, accounted_gettingKey (hFound s rfl (h.carries created rfl))⟩
  | returned b64 => exact absurd rfl (hOn b64)

/-- A stretch that caches no device key under a seed and stores none over
another keeps the cache coherent, and its call knows whose key it holds. -/
theorem resume_keeps {s : System Shared Point} {number : Nat} {point : Point} {answer : Answer}
    (h : Coherent P s.shared) (hPoint : Accounted P s.shared point)
    (hWallet : RespectsWallet s.shared answer point)
    (hStore : ∀ task kp, point = .gettingKey task kp → RespectsStore P s number answer kp) :
    Coherent P (resume P s.shared point answer).shared ∧
      Accounted P (resume P s.shared point answer).shared (resume P s.shared point answer).point ∧
      ((resume P s.shared point answer).shared.masterKeyStore = s.shared.masterKeyStore ∨
        ∃ task kp created, point = .gettingKey task kp ∧ kp.stores P answer = some created ∧
          deviceKey P (resume P s.shared point answer).shared = some created) := by
  cases point with
  | finished result => exact ⟨h, accounted_finished _ result, Or.inl rfl⟩
  | keyed task key =>
      cases task with
      | encrypt plaintext =>
          exact ⟨h, ⟨fun task kp hEq => (by cases hEq), hPoint.wallet⟩, Or.inl rfl⟩
      | decrypt payload => exact ⟨h, accounted_finished _ _, Or.inl rfl⟩
  | gettingIv plaintext key =>
      simp only [resume]
      split
      · exact ⟨h, accounted_finished _ _, Or.inl rfl⟩
      · exact ⟨h, accounted_finished _ _, Or.inl rfl⟩
  | gettingKey task kp =>
      have hKnows := hPoint.device task kp rfl
      have hRespects := hStore task kp rfl
      by_cases hReturned : ∃ b64, kp = .returned b64
      · obtain ⟨b64, rfl⟩ := hReturned
        have hAfter : Coherent P (s.shared.cacheKey (P.base64Parse b64)) := by
          apply coherent_cacheKey
          · intro seed hSeed
            cases (show s.shared.seed = none from hWallet).symm.trans hSeed
          · exact fun _ => ⟨b64, hKnows.carries b64 rfl, rfl⟩
        exact ⟨hAfter, hAfter.accounted_hold rfl task, Or.inl rfl⟩
      · obtain ⟨hShared, hNext⟩ := resumeKey_keeps hKnows task answer hRespects.succeeds
          (fun b64 hEq => hReturned ⟨b64, hEq⟩)
        have hPlatform : P.platform ≠ .web false := fun hWeb => hReturned (hKnows.stored hWeb)
        refine ⟨?_, hNext, ?_⟩
        · rcases hShared with hSame | ⟨created, hStores, hChanged⟩
          · rw [resume, hSame]
            exact h
          · rw [resume, hChanged]
            exact coherent_store h hPlatform fun cell hCell hNone =>
              hRespects.cached created cell hStores hCell hNone
        · rcases hShared with hSame | ⟨created, hStores, hChanged⟩
          · left
            rw [resume, hSame]
          · right
            refine ⟨task, kp, created, rfl, hStores, ?_⟩
            rw [resume, hChanged]
            exact deviceKey_store hPlatform _

/-- Another call bears that a key is stored if it carries no other. -/
theorem Accounted.stored {s s' : Shared} {point : Point} {created : String}
    (h : Accounted P s point) (hStored : deviceKey P s' = some created)
    (hAlone : ∀ task kp key, point = .gettingKey task kp → kp.carries = some key → key = created) :
    Accounted P s' point where
  device task kp hPoint :=
    { carries := fun key hKey => hStored.trans (congrArg some (hAlone task kp key hPoint hKey).symm)
      stored := (h.device task kp hPoint).stored }
  wallet := h.wallet

@[simp] theorem wipeCache_cache (s : Shared) : s.wipeCache.keyWordArrayCache = none := by
  unfold Shared.wipeCache
  split
  · assumption
  · rfl

/-- An event keeps the cache coherent: whatever it registers, the cached key is
dropped unless the wallet stays the same. -/
theorem event_coherent {s : Shared} (e : Event) (h : Coherent P s) :
    Coherent P (event s e).1 := by
  have hChange := event_change s e
  generalize event s e = after at hChange
  cases hChange with
  | same wallet hSeed => exact h.congr rfl rfl hSeed rfl
  | switched wallet hSeed => exact coherent_of_uncached (wipeCache_cache s)
  | reset => exact coherent_of_uncached (wipeCache_cache s)

/-- Every interleaving of steps that respect the wallet and the store keeps the
cache coherent, and every call accounted for. -/
theorem coherent_outline : Outline (program P) (Respects P) (fun _ s => Coherent P s)
    (fun _ s point => Accounted P s point) where
  start past s task hJ hA _ := by
    obtain ⟨hShared, hOwn, hStore⟩ := start_keeps hJ task
    exact ⟨hShared, hOwn, fun point hPoint => (hA point hPoint).congr hStore⟩
  resume past s number point answer hJ hA hPoint hRespects := by
    obtain ⟨hWallet, hStore⟩ := hRespects point hPoint
    obtain ⟨hShared, hOwn, hKept⟩ :=
      resume_keeps hJ (hA point (List.mem_of_getElem? hPoint)) hWallet hStore
    refine ⟨hShared, hOwn, ?_⟩
    intro other l hOther hl
    have hOld := hA l (List.mem_of_getElem? hl)
    rcases hKept with hSame | ⟨task, kp, created, hEq, hStores, hStored⟩
    · exact hOld.congr hSame
    · refine hOld.stored hStored ?_
      intro task' kp' key hl' hKey
      subst hl'
      exact (hStore task kp hEq).alone created other task' kp' key hStores hOther hl hKey
  event past s e hJ hA _ :=
    ⟨event_coherent e hJ, fun point hPoint => (hA point hPoint).congr (event_store s.shared e).1⟩
  idle past s hJ := ⟨hJ, fun _ hPoint => hPoint⟩

/-- The steps that make the cache incoherent at once: a device key is cached
under a registered seed, a device key is cached that is not the stored one, or
one is stored over another that is cached. -/
inductive Spoils (P : Primitives) (s : System Shared Point) : Action Task Answer Event → Prop where
  | legacy (number : Nat) (answer : Answer) (task : Task) (b64 seed : String)
      (hPoint : s.calls[number]? = some (.gettingKey task (.returned b64)))
      (hSeed : s.shared.seed = some seed) (hOther : P.pbkdf2 seed ≠ some (P.base64Parse b64)) :
      Spoils P s (.resume number answer)
  | stale (number : Nat) (answer : Answer) (task : Task) (b64 : String)
      (hPoint : s.calls[number]? = some (.gettingKey task (.returned b64)))
      (hNone : s.shared.activeWalletForCrypto = none)
      (hOther : (deviceKey P s.shared).map P.base64Parse ≠ some (P.base64Parse b64)) :
      Spoils P s (.resume number answer)
  | overwritten (number : Nat) (answer : Answer) (task : Task) (kp : KeyPoint) (created : String)
      (cell : Nat) (hPoint : s.calls[number]? = some (.gettingKey task kp))
      (hStores : kp.stores P answer = some created) (hStore : P.platform ≠ .web false)
      (hCell : s.shared.keyWordArrayCache = some cell)
      (hNone : s.shared.activeWalletForCrypto = none)
      (hOther : s.shared.heap[cell]? ≠ some (P.base64Parse created)) :
      Spoils P s (.resume number answer)

theorem resumeKey_stores {kp : KeyPoint} {answer : Answer} {created : String}
    (h : kp.stores P answer = some created) (s : Shared) (task : Task) :
    (resumeKey P s task kp answer).shared = { s with masterKeyStore := some created } := by
  cases kp with
  | generated key =>
      simp only [KeyPoint.stores] at h
      split at h
      · cases h
      · next hBoth =>
          cases h
          obtain ⟨hWeb, hAnswers⟩ := not_or.mp hBoth
          simp only [resumeKey]
          split
          · next hNative => exact absurd hNative hWeb
          · rw [if_neg hAnswers]
  | writing key =>
      simp only [KeyPoint.stores] at h
      split at h
      · cases h
      · next hAnswers =>
          cases h
          simp only [resumeKey, if_neg hAnswers]
  | reading => cases h
  | read found => cases h
  | generating => cases h
  | written b64 => cases h
  | returned b64 => cases h

theorem incoherent_of_spoils {s : System Shared Point} {a : Action Task Answer Event}
    (h : Spoils P s a) : ¬ Coherent P (step (program P) s a).1.shared := by
  have hFresh (key : WordArray) : (s.shared.heap ++ [key])[s.shared.heap.length]? = some key :=
    List.getElem?_concat_length
  intro hCoherent
  cases h with
  | legacy number answer task b64 seed hPoint hSeed hOther =>
      rw [step_resume_some hPoint] at hCoherent
      obtain ⟨key, hDerived, hContent⟩ := hCoherent.wallet s.shared.heap.length seed rfl hSeed
      exact hOther (hDerived.trans (hContent.symm.trans (hFresh _)))
  | stale number answer task b64 hPoint hNone hOther =>
      rw [step_resume_some hPoint] at hCoherent
      obtain ⟨key, hStored, hContent⟩ := hCoherent.device s.shared.heap.length rfl hNone
      have hSame : deviceKey P s.shared = some key := hStored
      rw [hSame, Option.map_some] at hOther
      exact hOther (hContent.symm.trans (hFresh _))
  | overwritten number answer task kp created cell hPoint hStores hStore hCell hNone hOther =>
      have hAfter : (step (program P) s (.resume number answer)).1.shared =
          { s.shared with masterKeyStore := some created } := by
        rw [step_resume_some hPoint]
        exact resumeKey_stores hStores s.shared task
      rw [hAfter] at hCoherent
      obtain ⟨key, hStored, hContent⟩ := hCoherent.device cell hCell hNone
      rw [deviceKey_store hStore] at hStored
      cases hStored
      exact hOther hContent

/-- In a run whose steps respect the wallet and the store, the cached key is
always the one that goes with the registered wallet, or without a wallet the
device master key, and every record made while a seed is registered is made
under the PBKDF2 key of that seed, unless that key has been wiped. In any run at
all a step that spoils the cache makes it incoherent at once. -/
theorem key_cache_coherent (stored : Option String) (as : List (Action Task Answer Event)) :
    (Along (step (program P)) (Respects P) ⟨initial stored, []⟩ as →
      Coherent P (final (step (program P)) ⟨initial stored, []⟩ as).shared ∧
      ∀ past future key used seed payload,
        trace (step (program P)) ⟨initial stored, []⟩ as =
          past ++ some (.encrypted key used (some seed) payload) :: future →
        P.pbkdf2 seed = some used ∨ Wiped past key.cell) ∧
    ∀ a, Spoils P (final (step (program P)) ⟨initial stored, []⟩ as) a →
      ¬ Coherent P (final (step (program P)) ⟨initial stored, []⟩ (as ++ [a])).shared := by
  constructor
  · intro hAlong
    have hInitial : Coherent P (initial stored) := coherent_of_uncached rfl
    refine ⟨(coherent_outline.along hInitial as hAlong).1, ?_⟩
    intro past future key used seed payload hTrace
    obtain ⟨before, a, after, rfl, rfl, hObserved⟩ := trace_split (step (program P)) hTrace
    obtain ⟨hBefore, hStep, _⟩ := (along_append (step (program P)) (Respects P) _ before
      (a :: after)).mp hAlong
    obtain ⟨number, answer, plaintext, rfl, hPoint, hSucceeds, hUsed, hSeed, _⟩ :=
      encrypted_of_step hObserved
    have hMem := List.mem_of_getElem? hPoint
    have hUnder : key.under = some seed := (hStep _ hPoint).1 hSucceeds seed hSeed.symm
    have hDerived := ((coherent_outline.along hInitial before hBefore).2 _ hMem).wallet key seed
      rfl hUnder
    have hTracked := (keyTracked_outline.along (cacheIntact_initial stored) before
      (along_trivial _ _ before)).2 _ hMem key rfl
    rcases hTracked with hIntact | hWiped
    · left
      rw [hDerived, hUsed, hIntact.content]
    · exact Or.inr hWiped
  · intro a hSpoils
    rw [final_concat]
    exact incoherent_of_spoils hSpoils

/-- A wallet is registered while an encryption waits for the device key. -/
def registeredRun : List (Action Task Answer Event) :=
  [.start (.encrypt "note"), .resume 0 ⟨false, ""⟩, .resume 0 ⟨false, ""⟩,
    .resume 0 ⟨false, firstKey⟩, .resume 0 ⟨false, ""⟩,
    .event (.setActiveWalletForCrypto (some ⟨"GA", "SA"⟩)),
    .resume 0 ⟨false, ""⟩, .resume 0 ⟨false, ""⟩, .resume 0 ⟨false, ""⟩, .resume 0 ⟨false, ""⟩,
    .resume 0 ⟨false, "iv"⟩]

/-- Two encryptions of a first launch both find no key. The first caches the one
it has created before the second stores its own. -/
def overlappingRun : List (Action Task Answer Event) :=
  [.start (.encrypt "a"), .start (.encrypt "b"), .resume 0 ⟨false, ""⟩, .resume 1 ⟨false, ""⟩,
    .resume 0 ⟨false, ""⟩, .resume 1 ⟨false, ""⟩, .resume 0 ⟨false, firstKey⟩,
    .resume 1 ⟨false, secondKey⟩, .resume 0 ⟨false, ""⟩, .resume 0 ⟨false, ""⟩,
    .resume 0 ⟨false, ""⟩, .resume 0 ⟨false, ""⟩, .resume 1 ⟨false, ""⟩, .resume 1 ⟨false, ""⟩]

/-- In the first run the device key is then cached for the wallet and the record
made under it; in the second the cached key is not the one the device keeps. -/
theorem registeredRun_incoherent :
    (¬ Coherent samplePrimitives
        (final (step (program samplePrimitives)) ⟨initial none, []⟩ registeredRun).shared ∧
      ∃ key used payload, some (.encrypted key used (some "SA") payload) ∈
          trace (step (program samplePrimitives)) ⟨initial none, []⟩ registeredRun ∧
        used = samplePrimitives.base64Parse firstKey ∧
        samplePrimitives.pbkdf2 "SA" ≠ some used) ∧
    ¬ Coherent samplePrimitives
        (final (step (program samplePrimitives)) ⟨initial none, []⟩ overlappingRun).shared ∧
      (final (step (program samplePrimitives)) ⟨initial none, []⟩
        overlappingRun).shared.activeWalletForCrypto = none := by
  refine ⟨⟨?_, ⟨0, samplePrimitives.base64Parse firstKey, some "SA"⟩,
    samplePrimitives.base64Parse firstKey, "iv.note", ?_, rfl, ?_⟩, ?_, by decide⟩
  · intro hCoherent
    obtain ⟨key, hDerived, hContent⟩ := hCoherent.wallet 0 "SA" (by decide) (by decide)
    have hDevice : (final (step (program samplePrimitives)) ⟨initial none, []⟩
        registeredRun).shared.heap[0]? = some (samplePrimitives.base64Parse firstKey) := by decide
    have hSame := hDerived.trans (hContent.symm.trans hDevice)
    exact absurd hSame (by decide)
  · decide
  · decide
  · intro hCoherent
    obtain ⟨b64, hStored, hContent⟩ := hCoherent.device 0 (by decide) (by decide)
    have hOther : deviceKey samplePrimitives (final (step (program samplePrimitives))
        ⟨initial none, []⟩ overlappingRun).shared = some secondKey := by decide
    cases hStored.symm.trans hOther
    have hFirst : (final (step (program samplePrimitives)) ⟨initial none, []⟩
        overlappingRun).shared.heap[0]? = some (samplePrimitives.base64Parse firstKey) := by decide
    exact absurd (hFirst.symm.trans hContent) (by decide)

/-- A decryption waits while an encryption creates, stores and caches the device
key, and finds that key; then a wallet is registered, and a last record made. -/
def encryptedRun : List (Action Task Answer Event) :=
  [.start (.encrypt "note"), .resume 0 ⟨false, ""⟩, .resume 0 ⟨false, ""⟩,
    .start (.decrypt "iv.old"), .resume 0 ⟨false, firstKey⟩, .resume 0 ⟨false, ""⟩,
    .resume 0 ⟨false, ""⟩, .resume 1 ⟨false, ""⟩, .resume 0 ⟨false, ""⟩, .resume 0 ⟨false, ""⟩,
    .resume 1 ⟨false, ""⟩, .resume 1 ⟨false, ""⟩, .resume 0 ⟨false, ""⟩, .resume 0 ⟨false, "iv"⟩,
    .event (.setActiveWalletForCrypto (some ⟨"GA", "SA"⟩)), .start (.encrypt "note"),
    .resume 2 ⟨false, ""⟩, .resume 2 ⟨false, "iv"⟩]

/-- A stretch that stores nothing, of a call whose wallet is still the
registered one, respects both the wallet and the store. -/
theorem respects_resume {s : System Shared Point} {number : Nat} {answer : Answer} {point : Point}
    (hPoint : s.calls[number]? = some point) (hWallet : RespectsWallet s.shared answer point)
    (hStore : ∀ task kp, point = .gettingKey task kp → (∀ created, kp ≠ .writing created) ∧
      kp.stores P answer = none) : Respects P s (.resume number answer) := by
  intro other hOther
  cases hPoint.symm.trans hOther
  refine ⟨hWallet, fun task kp hKey => ?_⟩
  obtain ⟨hWriting, hNone⟩ := hStore task kp hKey
  constructor
  · exact fun created hEq => absurd hEq (hWriting created)
  · intro created cell hStores
    cases hNone.symm.trans hStores
  · intro created other task point key hStores
    cases hNone.symm.trans hStores

/-- Only one stretch stores a key, while no key is cached and the decryption has
not read. -/
theorem encryptedRun_respects :
    Along (step (program samplePrimitives)) (Respects samplePrimitives) ⟨initial none, []⟩
      encryptedRun := by
  have hOn {number : Nat} {answer : Answer} {s : System Shared Point} {task : Task}
      {kp : KeyPoint} (hPoint : s.calls[number]? = some (.gettingKey task kp))
      (hWallet : RespectsWallet s.shared answer (.gettingKey task kp))
      (hWriting : ∀ created, kp ≠ .writing created)
      (hNone : kp.stores samplePrimitives answer = none) :
      Respects samplePrimitives s (.resume number answer) := by
    refine respects_resume hPoint hWallet ?_
    intro _ _ hEq
    cases hEq
    exact ⟨hWriting, hNone⟩
  have hOff {number : Nat} {answer : Answer} {s : System Shared Point} {point : Point}
      (hPoint : s.calls[number]? = some point) (hWallet : RespectsWallet s.shared answer point)
      (hOff : ∀ task kp, point ≠ .gettingKey task kp) :
      Respects samplePrimitives s (.resume number answer) :=
    respects_resume hPoint hWallet fun task kp hKey => absurd hKey (hOff task kp)
  have hSeed : (initial none).seed = none := rfl
  refine ⟨trivial, hOn rfl trivial (fun _ h => by cases h) rfl,
    hOn rfl trivial (fun _ h => by cases h) rfl, trivial,
    hOn rfl trivial (fun _ h => by cases h) rfl, hOn rfl trivial (fun _ h => by cases h) rfl, ?_,
    hOn rfl trivial (fun _ h => by cases h) rfl, hOn rfl trivial (fun _ h => by cases h) rfl,
    -- the device key is cached twice while no wallet is registered
    hOn rfl hSeed (fun _ h => by cases h) rfl, hOn rfl trivial (fun _ h => by cases h) rfl,
    hOn rfl hSeed (fun _ h => by cases h) rfl, hOff rfl trivial (fun _ _ h => by cases h),
    hOff rfl (fun _ _ h => h) (fun _ _ h => by cases h), trivial, trivial,
    hOff rfl trivial (fun _ _ h => by cases h),
    -- the last record is made under the seed its key was returned under
    hOff rfl (fun _ _ h => h) (fun _ _ h => by cases h), trivial⟩
  intro point hPoint
  cases hPoint
  refine ⟨trivial, fun task kp hEq => ?_⟩
  cases hEq
  constructor
  · exact fun _ _ => rfl
  · intro created cell _ hCell
    cases hCell
  · intro created other task point key _ hOther hCall hKey
    match other with
    | 0 => exact absurd rfl hOther
    | 1 =>
        cases hCall
        cases hKey
    | _ + 2 => cases hCall

theorem key_cache_coherent_sample :
    Coherent samplePrimitives
        (final (step (program samplePrimitives)) ⟨initial none, []⟩ encryptedRun).shared ∧
      ∀ past future key used seed payload,
        trace (step (program samplePrimitives)) ⟨initial none, []⟩ encryptedRun =
          past ++ some (.encrypted key used (some seed) payload) :: future →
        samplePrimitives.pbkdf2 seed = some used ∨ Wiped past key.cell :=
  (key_cache_coherent (P := samplePrimitives) none encryptedRun).1 encryptedRun_respects

end NotebookCrypto
