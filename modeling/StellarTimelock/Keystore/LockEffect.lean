import StellarTimelock.Keystore.SessionKeystore

/-! When a lock is effective: who may have put into the cache what it holds
after a `lockNow` or a `dropWallet`. -/
namespace SessionKeystore

open Interleaving Execution

variable {aliased : Bool}

/-- A lock of all wallets, or of this one. -/
def Covers (lock : Option String) (id : String) : Prop := lock = none ∨ lock = some id

/-- No lock of the wallet has come after the given number of locks. -/
def NotLockedSince (locks : List (Option String)) (started : Nat) (id : String) : Prop :=
  ∀ lock ∈ locks.drop started, ¬ Covers lock id

/-- Everything in the cache was put there by a call that started after the last
lock of its wallet. -/
def LockHolds (s : Shared) : Prop :=
  ∀ entry ∈ s.sessionCache, NotLockedSince s.locks entry.2.started entry.1

/-- The call can still put a seed into the cache. -/
def Flight.MayCache (f : Flight) : Prop :=
  (∀ id, f.call ≠ .removeWalletSeed id) ∧
    match f.stage with
    | .awaiting _ => True
    | .answered operation reply => ∀ result, f.call.next operation reply ≠ .finish result
    | .finished _ => False

/-- What an event adds to the log of locks. -/
def newLocks (s : Shared) (e : Event) : List (Option String) :=
  (event s e).1.locks.drop s.locks.length

/-- No wallet is locked while a call for it can still fill the cache. -/
def LocksQuietly (s : System Shared Flight) : Action Call Outcome Event → Prop
  | .event e => ∀ lock ∈ newLocks s.shared e, ∀ f ∈ s.calls, f.MayCache → ¬ Covers lock f.call.id
  | _ => True

/-- A call that can still fill the cache has not been overtaken by a lock. -/
def Flight.Current (s : Shared) (f : Flight) : Prop :=
  f.MayCache → NotLockedSince s.locks f.started f.call.id

/-- What a stretch of a call does to the variables that locks are about. -/
structure Fills (s : Shared) (f : Flight) (turn : Turn Shared Flight Notified) : Prop where
  locks : turn.shared.locks = s.locks
  call : turn.point.call = f.call
  started : turn.point.started = f.started
  may : turn.point.MayCache → f.MayCache
  cache : ∀ entry ∈ turn.shared.sessionCache,
    entry ∈ s.sessionCache ∨ f.MayCache ∧ entry.1 = f.call.id ∧ entry.2.started = f.started

/-- A stretch of a call either leaves the cache and the locks as they are or
caches one seed, marked with the locks that there were when the call began. -/
theorem resume_fills (s : Shared) (f : Flight) (outcome : Outcome) :
    Fills s f (resume aliased s f outcome) := by
  unfold resume
  split
  · next operation hStage =>
      obtain ⟨hCache, hLocks⟩ := perform_variables aliased s f.call.id operation outcome
      have hMay (h : ∀ id, f.call ≠ .removeWalletSeed id) : f.MayCache := by
        refine ⟨h, ?_⟩
        rw [hStage]
        trivial
      simp only
      split
      · exact ⟨hLocks, rfl, rfl, fun h => hMay h.1, fun entry hEntry => Or.inl (hCache ▸ hEntry)⟩
      · exact ⟨hLocks, rfl, rfl, fun h => hMay h.1, fun entry hEntry => Or.inl (hCache ▸ hEntry)⟩
  · next operation reply hStage =>
      have hMay (h : ∀ id, f.call ≠ .removeWalletSeed id)
          (hNext : ∀ result, f.call.next operation reply ≠ .finish result) : f.MayCache := by
        refine ⟨h, ?_⟩
        rw [hStage]
        exact hNext
      unfold proceed
      split
      · next after hNext =>
          refine ⟨rfl, rfl, rfl, fun h => hMay h.1 ?_, fun entry hEntry => Or.inl hEntry⟩
          intro result hFinish
          cases hNext.symm.trans hFinish
      · next seed result hNext =>
          refine ⟨rfl, rfl, rfl, fun h => h.2.elim, ?_⟩
          intro entry hEntry
          rcases SessionCache.mem_set.mp hEntry with rfl | ⟨hOld, _⟩
          · refine Or.inr ⟨hMay ?_ ?_, rfl, rfl⟩
            · intro id hRemoval
              rw [hRemoval] at hNext
              exact next_removeWalletSeed hNext
            · intro other hFinish
              cases hNext.symm.trans hFinish
          · exact Or.inl hOld
      · exact ⟨rfl, rfl, rfl, fun h => h.2.elim, fun entry hEntry => Or.inl hEntry⟩
  · exact ⟨rfl, rfl, rfl, id, fun entry hEntry => Or.inl hEntry⟩

/-- A wallet that was not locked so far and is not covered by the new locks has
still not been locked. -/
theorem notLockedSince_append {first more : List (Option String)} {started : Nat} {id : String}
    (h : NotLockedSince first started id) (hMore : ∀ lock ∈ more, ¬ Covers lock id) :
    NotLockedSince (first ++ more) started id := by
  intro lock hLock
  rw [List.drop_append] at hLock
  rcases List.mem_append.mp hLock with hOld | hNew
  · exact h lock hOld
  · exact hMore lock (List.mem_of_mem_drop hNew)

/-- Locks are logged, and what stays in the cache is not covered by them. -/
def Locks (s s' : Shared) (more : List (Option String)) : Prop :=
  s'.locks = s.locks ++ more ∧
    ∀ entry ∈ s'.sessionCache, entry ∈ s.sessionCache ∧ ∀ lock ∈ more, ¬ Covers lock entry.1

theorem Locks.same {s s' : Shared} (hLocks : s'.locks = s.locks)
    (hCache : s'.sessionCache = s.sessionCache) : Locks s s' [] := by
  refine ⟨hLocks.trans (List.append_nil _).symm, ?_⟩
  intro entry hEntry
  rw [hCache] at hEntry
  exact ⟨hEntry, fun lock hLock => absurd hLock List.not_mem_nil⟩

theorem lockNow_locks (s : Shared) : Locks s (lockNow s).1 [none] :=
  ⟨rfl, fun _ hEntry => absurd hEntry List.not_mem_nil⟩

/-- Locking everything after other locks adds one more and leaves nothing
cached. -/
theorem Locks.lockNow {s s' : Shared} {more : List (Option String)} (h : Locks s s' more) :
    Locks s (lockNow s').1 (more ++ [none]) := by
  refine ⟨?_, fun _ hEntry => absurd hEntry List.not_mem_nil⟩
  show s'.locks ++ [none] = s.locks ++ (more ++ [none])
  rw [h.1, List.append_assoc]

theorem returnToActive_locks (s : Shared) (next : AppStateStatus) :
    ∃ more, Locks s (returnToActive s next).1 more := by
  unfold returnToActive
  split
  · simp only
    split
    · exact ⟨[none], lockNow_locks _⟩
    · exact ⟨[], Locks.same rfl rfl⟩
  · exact ⟨[], Locks.same rfl rfl⟩

/-- Whatever the listener does on an event, it does by locks: it never puts
anything into the cache. -/
theorem appStateChange_locks (s : Shared) (next : AppStateStatus) :
    ∃ more, Locks s (appStateChange s next).1 more := by
  unfold appStateChange
  split
  · exact ⟨[], Locks.same rfl rfl⟩
  · obtain ⟨more, hMore⟩ := returnToActive_locks s next
    unfold lockIfIdle
    simp only
    split
    · exact ⟨more ++ [none], hMore.lockNow⟩
    · exact ⟨more, hMore⟩

/-- What an event does to the cache and to the log. -/
theorem event_locks (s : Shared) (e : Event) : Locks s (event s e).1 (newLocks s e) := by
  have hLocks : ∃ more, Locks s (event s e).1 more := by
    cases e with
    | lockNow => exact ⟨[none], lockNow_locks s⟩
    | dropWallet id =>
        refine ⟨[some id], rfl, ?_⟩
        intro entry hEntry
        obtain ⟨hOld, hOther⟩ := SessionCache.mem_delete.mp hEntry
        refine ⟨hOld, ?_⟩
        intro lock hLock hCovers
        rw [List.mem_singleton.mp hLock] at hCovers
        rcases hCovers with hAll | hThis
        · cases hAll
        · exact hOther (Option.some.inj hThis).symm
    | subscribeSessionLock listener => exact ⟨[], Locks.same rfl rfl⟩
    | unsubscribe listener => exact ⟨[], Locks.same rfl rfl⟩
    | installIdleLock => exact ⟨[], Locks.same rfl rfl⟩
    | uninstallIdleLock => exact ⟨[], Locks.same rfl rfl⟩
    | appStateChange next =>
        simp only [event]
        split
        · exact appStateChange_locks s next
        · exact ⟨[], Locks.same rfl rfl⟩
    | advance ms => exact ⟨[], Locks.same rfl rfl⟩
  obtain ⟨more, hMore⟩ := hLocks
  have hNew : newLocks s e = more := by
    unfold newLocks
    rw [hMore.1, List.drop_left]
  rw [hNew]
  exact hMore

/-- A call starts as one that no lock has overtaken, and fills no cache. -/
theorem start_fills (s : Shared) (call : Call) :
    (start s call).shared.locks = s.locks ∧ (start s call).point.started = s.locks.length ∧
      ∀ entry ∈ (start s call).shared.sessionCache, entry ∈ s.sessionCache := by
  cases call with
  | getWalletSeed id =>
      simp only [start]
      split <;> exact ⟨rfl, rfl, fun entry h => h⟩
  | setWalletSeed id seed => exact ⟨rfl, rfl, fun entry h => h⟩
  | removeWalletSeed id => exact ⟨rfl, rfl, fun entry h => (SessionCache.mem_delete.mp h).1⟩

/-- The local assertions: what is cached is not older than the locks of its
wallet, and a call that can still cache has not been overtaken by one. -/
theorem lock_outline : Outline (program aliased) LocksQuietly (fun _ s => LockHolds s)
    (fun _ s f => f.Current s) where
  start past s call hHolds hFlights _ := by
    obtain ⟨hLocks, hStarted, hCache⟩ := start_fills s.shared call
    refine ⟨?_, ?_, ?_⟩
    · intro entry hEntry
      show NotLockedSince (start s.shared call).shared.locks _ _
      rw [hLocks]
      exact hHolds entry (hCache entry hEntry)
    · intro _
      show NotLockedSince (start s.shared call).shared.locks (start s.shared call).point.started _
      rw [hLocks, hStarted]
      intro lock hLock
      rw [List.drop_length] at hLock
      cases hLock
    · intro f hf hMay
      show NotLockedSince (start s.shared call).shared.locks _ _
      rw [hLocks]
      exact hFlights f hf hMay
  resume past s number f outcome hHolds hFlights hFlight _ := by
    have hFills : Fills s.shared f (resume aliased s.shared f outcome) := resume_fills _ _ _
    have hCurrent := hFlights f (List.mem_of_getElem? hFlight)
    refine ⟨?_, ?_, ?_⟩
    · intro entry hEntry
      show NotLockedSince (resume aliased s.shared f outcome).shared.locks _ _
      rw [hFills.locks]
      rcases hFills.cache entry hEntry with hOld | ⟨hMay, hId, hStarted⟩
      · exact hHolds entry hOld
      · rw [hId, hStarted]
        exact hCurrent hMay
    · intro hMay
      show NotLockedSince (resume aliased s.shared f outcome).shared.locks
        (resume aliased s.shared f outcome).point.started
        (resume aliased s.shared f outcome).point.call.id
      rw [hFills.locks, hFills.started, hFills.call]
      exact hCurrent (hFills.may hMay)
    · intro other l _ hOther hMay
      show NotLockedSince (resume aliased s.shared f outcome).shared.locks _ _
      rw [hFills.locks]
      exact hFlights l (List.mem_of_getElem? hOther) hMay
  event past s e hHolds hFlights hStep := by
    obtain ⟨hLocks, hCache⟩ := event_locks s.shared e
    refine ⟨?_, ?_⟩
    · intro entry hEntry
      obtain ⟨hOld, hFree⟩ := hCache entry hEntry
      show NotLockedSince (event s.shared e).1.locks _ _
      rw [hLocks]
      exact notLockedSince_append (hHolds entry hOld) hFree
    · intro f hf hMay
      show NotLockedSince (event s.shared e).1.locks _ _
      rw [hLocks]
      exact notLockedSince_append (hFlights f hf hMay) fun lock hLock =>
        hStep lock hLock f hf hMay
  idle past s hHolds := ⟨hHolds, fun _ h => h⟩

/-- In every run that never locks a wallet under a call that can still cache
its seed, all that the cache ever holds was put there by calls that started
after the last lock of their wallet. -/
theorem lockHolds_along (clock : Nat) (slot : String → Option (Variant × String))
    (flag : String → Bool) (as : List (Action Call Outcome Event))
    (hAlong : Along (step (program aliased)) LocksQuietly ⟨initial clock slot flag, []⟩ as) :
    LockHolds (final (step (program aliased)) ⟨initial clock slot flag, []⟩ as).shared :=
  (lock_outline.along (fun _ hEntry => absurd hEntry List.not_mem_nil) as hAlong).1

end SessionKeystore
