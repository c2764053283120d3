import StellarTimelock.Keystore.SessionKeystore

/-! The idle lock: what the AppState listener sees of a long stay outside the
active state and of a long time without activity. -/
namespace SessionKeystore

open Interleaving Execution

variable {aliased : Bool}

/-- The entry from which a read is answered without the storage. -/
def answersFromCache (s : Shared) (id : String) : Option Entry :=
  (s.sessionCache.get id).filter fun entry => entry.seed ≠ ""

/-- What is recorded beside the keystore: since when the app is outside the
active state, when it last came to be active, and the wallets that were cached
when a stay outside of `idleLockMs` or more was completed, unless cached again
since. -/
structure Monitor where
  outsideSince : Option Nat := none
  lastActive : Option Nat := none
  overstayed : List String := []

/-- The wallet that a call's next stretch caches. -/
def warms (f : Flight) : Option String :=
  match f.stage with
  | .answered operation reply =>
      match f.call.next operation reply with
      | .warm _ _ => some f.call.id
      | _ => none
  | _ => none

/-- The stay that ends now has been long. -/
def Monitor.long (g : Monitor) (now : Nat) : Prop :=
  ∃ since, g.outsideSince = some since ∧ idleLockMs ≤ now - since

instance (g : Monitor) (now : Nat) : Decidable (g.long now) :=
  match h : g.outsideSince with
  | none => .isFalse fun ⟨_, hSome, _⟩ => by cases h.symm.trans hSome
  | some since => decidable_of_iff (idleLockMs ≤ now - since)
      ⟨fun hLong => ⟨since, h, hLong⟩,
        fun ⟨_, hSome, hLong⟩ => by cases h.symm.trans hSome; exact hLong⟩

def Monitor.watch (s : System Shared Flight) (a : Action Call Outcome Event) (g : Monitor) :
    Monitor :=
  match a with
  | .event (.appStateChange .active) =>
      { outsideSince := none
        lastActive := some s.shared.clock
        overstayed := if g.long s.shared.clock then
            g.overstayed ++ s.shared.sessionCache.map (·.1) else g.overstayed }
  | .event (.appStateChange .inactive) | .event (.appStateChange .background) =>
      { g with outsideSince := some (g.outsideSince.getD s.shared.clock) }
  | .resume number _ =>
      match s.calls[number]?.bind warms with
      | some id => { g with overstayed := g.overstayed.filter (· ≠ id) }
      | none => g
  | _ => g

abbrev monitored (aliased : Bool) :=
  watched (step (program aliased)) Monitor.watch

/-- Clock advances, the three AppState events, reads and writes of seeds. -/
def InScope (_ : System Shared Flight × Monitor) : Action Call Outcome Event → Prop
  | .start (.getWalletSeed _) | .start (.setWalletSeed _ _) | .resume _ _ => True
  | .event (.advance _) => True
  | .event (.appStateChange next) => next ≠ .other
  | _ => False

/-- By one of its two timers the listener finds that the time has come. -/
def Shared.overdue (s : Shared) : Prop :=
  (∃ since, s.backgroundedAtMs = some since ∧ idleLockMs ≤ s.clock - since) ∨
    idleLockMs ≤ s.clock - s.lastActivityMs

/-- A read is answered from the cache only within `idleLockMs` of the last
activity, and only if no long stay outside the active state was completed since
the seed was cached. -/
def LocksWhenIdle (p : System Shared Flight × Monitor) : Action Call Outcome Event → Prop
  | .start (.getWalletSeed id) => answersFromCache p.1.shared id ≠ none →
      p.1.shared.clock - p.1.shared.lastActivityMs < idleLockMs ∧ id ∉ p.2.overstayed
  | _ => True

/-- A cached wallet is read long after the last activity only if the app came
to be active that late; and when a long stay outside ends with a seed cached,
the last event outside or the last activity is long ago. -/
def IdleSafe (p : System Shared Flight × Monitor) : Action Call Outcome Event → Prop
  | .start (.getWalletSeed id) => answersFromCache p.1.shared id ≠ none →
      idleLockMs ≤ p.1.shared.clock - p.1.shared.lastActivityMs →
      ∃ active, p.2.lastActive = some active ∧ p.1.shared.lastActivityMs + idleLockMs ≤ active
  | .event (.appStateChange .active) => p.2.long p.1.shared.clock →
      (∃ id, answersFromCache p.1.shared id ≠ none) →
      p.1.shared.overdue
  | _ => True

/-- The variables that the idle lock reads, apart from the cache. -/
structure SameTimers (s after : Shared) : Prop where
  appStateSub : after.appStateSub = s.appStateSub
  clock : after.clock = s.clock
  lastActivityMs : after.lastActivityMs = s.lastActivityMs

/-- No storage operation touches the subscription or the timers. -/
theorem perform_timers (aliased : Bool) (s : Shared) (id : String) (operation : StorageCall)
    (outcome : Outcome) : SameTimers s (perform aliased s id operation outcome).1 := by
  cases outcome <;> cases operation <;> exact ⟨rfl, rfl, rfl⟩

/-- An `active` event empties the cache where it is overdue to be locked, and
else leaves it. The timers it leaves in either case. -/
theorem heartbeat (s : Shared) : SameTimers s (appStateChange s .active).1 ∧
    (s.overdue → (appStateChange s .active).1.sessionCache = []) ∧
    (¬ s.overdue → (appStateChange s .active).1.sessionCache = s.sessionCache) := by
  have hChange : appStateChange s .active =
      ((lockIfIdle (returnToActive s .active).1).1,
        (returnToActive s .active).2 ++ (lockIfIdle (returnToActive s .active).1).2) := rfl
  rw [hChange]
  unfold returnToActive lockIfIdle Shared.overdue
  cases hSince : s.backgroundedAtMs with
  | none =>
      simp only [reduceCtorEq, false_and, exists_false, false_or]
      by_cases hIdle : idleLockMs ≤ s.clock - s.lastActivityMs
      · rw [if_pos hIdle]
        exact ⟨⟨rfl, rfl, rfl⟩, fun _ => rfl, fun h => absurd hIdle h⟩
      · rw [if_neg hIdle]
        exact ⟨⟨rfl, rfl, rfl⟩, fun h => absurd h hIdle, fun _ => rfl⟩
  | some since =>
      simp only [Option.some.injEq, exists_eq_left']
      by_cases hAway : idleLockMs ≤ s.clock - since
      · rw [if_pos hAway]
        refine ⟨?_, fun _ => ?_, fun h => absurd (Or.inl hAway) h⟩
        · simp only [lockNow]
          split <;> exact ⟨rfl, rfl, rfl⟩
        · simp only [lockNow]
          split <;> rfl
      · rw [if_neg hAway]
        by_cases hIdle : idleLockMs ≤ s.clock - s.lastActivityMs
        · simp only [if_pos hIdle]
          exact ⟨⟨rfl, rfl, rfl⟩, fun _ => rfl, fun h => absurd (Or.inr hIdle) h⟩
        · simp only [if_neg hIdle]
          refine ⟨⟨rfl, rfl, rfl⟩, fun h => ?_, fun _ => trivial⟩
          exact absurd h (not_or.mpr ⟨hAway, hIdle⟩)

/-- A stretch that caches nothing leaves the cache and the timers alone. -/
theorem resume_cold (aliased : Bool) (s : Shared) {f : Flight} (hCold : warms f = none)
    (outcome : Outcome) : SameTimers s (resume aliased s f outcome).shared ∧
      (resume aliased s f outcome).shared.sessionCache = s.sessionCache := by
  unfold resume
  cases hStage : f.stage with
  | awaiting operation =>
      have hTimers := perform_timers aliased s f.call.id operation outcome
      have hCache := (perform_variables aliased s f.call.id operation outcome).1
      simp only
      split
      · exact ⟨hTimers, hCache⟩
      · exact ⟨hTimers, hCache⟩
  | answered operation reply =>
      simp only [warms, hStage] at hCold
      simp only [proceed]
      split
      · exact ⟨⟨rfl, rfl, rfl⟩, rfl⟩
      · next seed result hNext =>
          rw [hNext] at hCold
          cases hCold
      · exact ⟨⟨rfl, rfl, rfl⟩, rfl⟩
  | finished result => exact ⟨⟨rfl, rfl, rfl⟩, rfl⟩

/-- A stretch that caches a seed counts as activity at the present time, and the
cache gains no other entry. -/
theorem resume_warm (aliased : Bool) (s : Shared) {f : Flight} {id : String}
    (hWarm : warms f = some id) (outcome : Outcome) :
    (resume aliased s f outcome).shared.appStateSub = s.appStateSub ∧
      (resume aliased s f outcome).shared.clock = s.clock ∧
      (resume aliased s f outcome).shared.lastActivityMs = s.clock ∧
      ∃ entry, (resume aliased s f outcome).shared.sessionCache = s.sessionCache.set id entry := by
  unfold warms at hWarm
  unfold resume
  cases hStage : f.stage with
  | awaiting operation =>
      rw [hStage] at hWarm
      cases hWarm
  | answered operation reply =>
      rw [hStage] at hWarm
      simp only at hWarm
      split at hWarm
      · next seed result hNext =>
          cases hWarm
          simp only [proceed, hNext]
          exact ⟨rfl, rfl, rfl, _, rfl⟩
      · cases hWarm
  | finished result =>
      rw [hStage] at hWarm
      cases hWarm

/-- A read that the cache answers is activity; any other start does nothing to
the cache and the timers. -/
theorem start_getWalletSeed (s : Shared) (id : String) :
    (start s (.getWalletSeed id)).shared =
      if answersFromCache s id = none then s else s.touch := by
  unfold answersFromCache
  simp only [start]
  split
  · next cached hCached =>
      rw [hCached, if_neg (Option.some_ne_none cached)]
      rfl
  · next hNone =>
      rw [hNone, if_pos rfl]
      rfl

/-- Caching a seed of one wallet does not change what is answered for another.
-/
theorem answersFromCache_set_of_ne {s after : Shared} {id other : String} {entry : Entry}
    (hOther : other ≠ id) (hCache : after.sessionCache = s.sessionCache.set other entry) :
    answersFromCache after id = answersFromCache s id := by
  unfold answersFromCache
  rw [hCache, SessionCache.get_set_of_ne hOther]

theorem answersFromCache_congr {s after : Shared} (h : after.sessionCache = s.sessionCache)
    (id : String) : answersFromCache after id = answersFromCache s id := by
  unfold answersFromCache
  rw [h]

theorem answersFromCache_nil {s : Shared} (h : s.sessionCache = []) (id : String) :
    answersFromCache s id = none := by
  unfold answersFromCache
  rw [h]
  rfl

/-- What the record knows of the cache: the last heartbeat came before the cache
was overdue, and no wallet that overstayed answers. -/
structure Tracked (s : Shared) (g : Monitor) : Prop where
  installed : s.appStateSub = true
  past : ∀ active, g.lastActive = some active → active ≤ s.clock
  heartbeat : ∀ active, g.lastActive = some active → s.sessionCache ≠ [] →
    active < s.lastActivityMs + idleLockMs
  overstayed : ∀ id ∈ g.overstayed, answersFromCache s id = none

theorem tracked_start {s : Shared} (hInstalled : s.appStateSub = true) : Tracked s {} :=
  ⟨hInstalled, fun active h => (by cases h), fun active h => (by cases h),
    fun id h => absurd h List.not_mem_nil⟩

theorem idleLockMs_pos : 0 < idleLockMs := by decide

/-- The monitor still tracks the keystore after a stretch that touches neither
the cache nor the timers. -/
theorem Tracked.same {s after : Shared} {g : Monitor} (h : Tracked s g)
    (hTimers : SameTimers s after) (hCache : after.sessionCache = s.sessionCache) :
    Tracked after g := by
  refine ⟨?_, ?_, ?_, ?_⟩
  · rw [hTimers.appStateSub]
    exact h.installed
  · rw [hTimers.clock]
    exact h.past
  · rw [hTimers.lastActivityMs, hCache]
    exact h.heartbeat
  · intro id hId
    rw [answersFromCache_congr hCache]
    exact h.overstayed id hId

/-- Activity is never earlier than the last heartbeat. -/
theorem Tracked.touch {s : Shared} {g : Monitor} (h : Tracked s g) : Tracked s.touch g := by
  refine ⟨h.installed, h.past, ?_, h.overstayed⟩
  intro active hActive _
  have hPast := h.past active hActive
  have hPositive := idleLockMs_pos
  show active < s.clock + idleLockMs
  omega

/-- Caching a seed is an activity: it starts the timer of idleness anew, and no
stay outside has been completed since. -/
theorem Tracked.warm {s after : Shared} {g : Monitor} {id : String} {entry : Entry}
    (h : Tracked s g) (hSub : after.appStateSub = s.appStateSub) (hClock : after.clock = s.clock)
    (hLast : after.lastActivityMs = s.clock) (hCache : after.sessionCache = s.sessionCache.set id entry) :
    Tracked after { g with overstayed := g.overstayed.filter (· ≠ id) } := by
  refine ⟨hSub.trans h.installed, ?_, ?_, ?_⟩
  · rw [hClock]
    exact h.past
  · intro active hActive _
    have hPast := h.past active hActive
    have hPositive := idleLockMs_pos
    omega
  · intro other hOther
    obtain ⟨hMem, hNe⟩ := List.mem_filter.mp hOther
    rw [answersFromCache_set_of_ne (Ne.symm (of_decide_eq_true hNe)) hCache]
    exact h.overstayed other hMem

/-- Back in the foreground; a long stay has to be found out. -/
theorem Tracked.active {s : Shared} {g : Monitor} (h : Tracked s g)
    (hSafe : g.long s.clock → (∃ id, answersFromCache s id ≠ none) → s.overdue) :
    Tracked (appStateChange s .active).1
      { outsideSince := none
        lastActive := some s.clock
        overstayed := if g.long s.clock then g.overstayed ++ s.sessionCache.map (·.1)
          else g.overstayed } := by
  obtain ⟨hTimers, hLocks, hKeeps⟩ := SessionKeystore.heartbeat s
  refine ⟨hTimers.appStateSub.trans h.installed, ?_, ?_, ?_⟩
  · rintro active hActive
    cases hActive
    exact Nat.le_of_eq hTimers.clock.symm
  · rintro active hActive hSome
    cases hActive
    rw [hTimers.lastActivityMs]
    by_contra hLate
    refine hSome (hLocks (Or.inr ?_))
    omega
  · intro id hId
    by_cases hOverdue : s.overdue
    · exact answersFromCache_nil (hLocks hOverdue) id
    · rw [answersFromCache_congr (hKeeps hOverdue)]
      split at hId
      · next hLong =>
          by_contra hSome
          exact hOverdue (hSafe hLong ⟨id, hSome⟩)
      · exact h.overstayed id hId

/-- A stretch of a call keeps the record in step with the timers; only a stretch
that caches a seed touches either. -/
theorem tracked_resume {s : System Shared Flight} {g : Monitor} (h : Tracked s.shared g)
    (number : Nat) (outcome : Outcome) :
    Tracked (step (program aliased) s (.resume number outcome)).1.shared
      (Monitor.watch s (.resume number outcome) g) := by
  cases hFlight : s.calls[number]? with
  | none =>
      have hWatch : Monitor.watch s (.resume number outcome) g = g := by
        simp only [Monitor.watch, hFlight, Option.bind_none]
      rw [step_resume_none hFlight, hWatch]
      exact h
  | some f =>
      rw [step_resume_some hFlight]
      cases hWarms : warms f with
      | none =>
          have hWatch : Monitor.watch s (.resume number outcome) g = g := by
            simp only [Monitor.watch, hFlight, Option.bind_some, hWarms]
          obtain ⟨hTimers, hCache⟩ := resume_cold aliased s.shared hWarms outcome
          rw [hWatch]
          exact h.same hTimers hCache
      | some id =>
          have hWatch : Monitor.watch s (.resume number outcome) g =
              { g with overstayed := g.overstayed.filter (· ≠ id) } := by
            simp only [Monitor.watch, hFlight, Option.bind_some, hWarms]
          obtain ⟨hSub, hClock, hLast, entry, hCache⟩ := resume_warm aliased s.shared hWarms outcome
          rw [hWatch]
          exact h.warm hSub hClock hLast hCache

theorem monitored_active {s : System Shared Flight} (h : s.shared.appStateSub = true)
    (next : AppStateStatus) (g : Monitor) :
    (monitored aliased (s, g) (.event (.appStateChange next))).1.1.shared =
      (appStateChange s.shared next).1 := by
  show (if s.shared.appStateSub then appStateChange s.shared next else (s.shared, [])).1 = _
  rw [if_pos h]

/-- Every safe step in scope keeps the record in step with the listener's own
timers. A second event outside the active state, which restarts the listener's
timer, is not safe. -/
theorem tracked_step {p : System Shared Flight × Monitor} {a : Action Call Outcome Event}
    (h : Tracked p.1.shared p.2) (hScope : InScope p a) (hSafe : IdleSafe p a) :
    Tracked (monitored aliased p a).1.1.shared (monitored aliased p a).1.2 := by
  obtain ⟨s, g⟩ := p
  cases a with
  | start call =>
      cases call with
      | getWalletSeed id =>
          show Tracked (start s.shared (.getWalletSeed id)).shared g
          rw [start_getWalletSeed]
          split
          · exact h
          · exact h.touch
      | setWalletSeed id seed => exact h
      | removeWalletSeed id => exact hScope.elim
  | resume number outcome => exact tracked_resume h number outcome
  | event e =>
      cases e with
      | advance ms =>
          refine ⟨h.installed, ?_, h.heartbeat, h.overstayed⟩
          intro active hActive
          exact Nat.le_add_right_of_le (h.past active hActive)
      | appStateChange next =>
          rw [monitored_active h.installed]
          cases next with
          | active => exact h.active hSafe
          | inactive => exact ⟨h.installed, h.past, h.heartbeat, h.overstayed⟩
          | background => exact ⟨h.installed, h.past, h.heartbeat, h.overstayed⟩
          | other => exact (hScope rfl).elim
      | _ => exact hScope.elim

/-- With the record in step, a read from the cache at a safe moment is one that
the idle lock allows. -/
theorem locks_of_safe {p : System Shared Flight × Monitor} {a : Action Call Outcome Event}
    (h : Tracked p.1.shared p.2) (hSafe : IdleSafe p a) : LocksWhenIdle p a := by
  cases a with
  | start call =>
      cases call with
      | getWalletSeed id =>
          intro hCached
          refine ⟨?_, fun hOver => hCached (h.overstayed id hOver)⟩
          by_contra hIdle
          obtain ⟨active, hActive, hLate⟩ := hSafe hCached (Nat.le_of_not_lt hIdle)
          have hSome : p.1.shared.sessionCache ≠ [] :=
            fun hNil => hCached (answersFromCache_nil hNil id)
          have hEarly := h.heartbeat active hActive hSome
          omega
      | setWalletSeed id seed => trivial
      | removeWalletSeed id => trivial
  | resume number outcome => trivial
  | event e => trivial

variable (aliased) in
/-- What a step that is not safe leads to: a read at once, or after it. -/
theorem unlocks_of_unsafe {p : System Shared Flight × Monitor} {a : Action Call Outcome Event}
    (h : Tracked p.1.shared p.2) (hUnsafe : ¬ IdleSafe p a) :
    ∃ more, Along (monitored aliased) InScope p (a :: more) ∧
      ¬ Along (monitored aliased) LocksWhenIdle p (a :: more) := by
  obtain ⟨s, g⟩ := p
  cases a with
  | start call =>
      cases call with
      | getWalletSeed id =>
          simp only [IdleSafe, not_forall] at hUnsafe
          obtain ⟨hCached, hIdle, -⟩ := hUnsafe
          refine ⟨[], ⟨trivial, trivial⟩, ?_⟩
          rintro ⟨hRead, -⟩
          exact Nat.not_lt.mpr hIdle (hRead hCached).1
      | setWalletSeed id seed => exact absurd trivial hUnsafe
      | removeWalletSeed id => exact absurd trivial hUnsafe
  | resume number outcome => exact absurd trivial hUnsafe
  | event e =>
      cases e with
      | appStateChange next =>
          cases next with
          | active =>
              simp only [IdleSafe, not_forall] at hUnsafe
              obtain ⟨hLong, ⟨id, hCached⟩, hNotDue⟩ := hUnsafe
              refine ⟨[.start (.getWalletSeed id)], ⟨fun h => (by cases h), trivial, trivial⟩, ?_⟩
              rintro ⟨-, hRead, -⟩
              have hKept := (SessionKeystore.heartbeat s.shared).2.2 hNotDue
              have hStill : answersFromCache
                  (monitored aliased (s, g) (.event (.appStateChange .active))).1.1.shared id ≠ none := by
                rw [monitored_active h.installed, answersFromCache_congr hKept]
                exact hCached
              refine (hRead hStill).2 ?_
              show id ∈ if g.long s.shared.clock then
                g.overstayed ++ s.shared.sessionCache.map (·.1) else g.overstayed
              rw [if_pos hLong]
              obtain ⟨entry, hEntry⟩ := Option.ne_none_iff_exists'.mp hCached
              have hGet := (Option.filter_eq_some_iff.mp hEntry).1
              exact List.mem_append_right _
                (List.mem_map.mpr ⟨_, SessionCache.mem_of_get hGet, rfl⟩)
          | inactive => exact absurd trivial hUnsafe
          | background => exact absurd trivial hUnsafe
          | other => exact absurd trivial hUnsafe
      | _ => exact absurd trivial hUnsafe

/-- After `installIdleLock`, in a run watched by the monitor, which changes
nothing of it: as long as every step is safe, every read from the cache comes
soon after the last activity, and none after a long stay outside. The first step
that is not safe can be followed by a read that is neither. -/
theorem idle_lock (aliased : Bool) (s : System Shared Flight)
    (hInstalled : s.shared.appStateSub = true) (as : List (Action Call Outcome Event))
    (hScope : Along (monitored aliased) InScope (s, {}) as)
    (hSafe : Along (monitored aliased) IdleSafe (s, {}) as) :
    (final (monitored aliased) (s, {}) as).1 = final (step (program aliased)) s as ∧
    Along (monitored aliased) LocksWhenIdle (s, {}) as ∧
    ∀ a, ¬ IdleSafe (final (monitored aliased) (s, {}) as) a →
      ∃ more, Along (monitored aliased) InScope (s, {}) (as ++ a :: more) ∧
        ¬ Along (monitored aliased) LocksWhenIdle (s, {}) (as ++ a :: more) := by
  have hStart : Tracked s.shared {} := tracked_start hInstalled
  have hBoth := (along_and (monitored aliased) InScope IdleSafe (s, {}) as).mpr ⟨hScope, hSafe⟩
  refine ⟨final_watched (step (program aliased)) Monitor.watch (s, {}) as, ?_, ?_⟩
  · exact along_imp (monitored aliased) (fun p => Tracked p.1.shared p.2)
      (fun p a h hStep => tracked_step h hStep.1 hStep.2) (fun p a h hStep => locks_of_safe h hStep.2)
      hStart hBoth
  · intro a hUnsafe
    have hTracked := invariant_along (monitored aliased) (fun p => Tracked p.1.shared p.2)
      (fun p a h hStep => tracked_step h hStep.1 hStep.2) hStart hBoth
    obtain ⟨more, hMore, hRead⟩ := unlocks_of_unsafe aliased hTracked hUnsafe
    refine ⟨more, ?_, ?_⟩
    · rw [along_append]
      exact ⟨hScope, hMore⟩
    · rw [along_append]
      exact fun hAll => hRead hAll.2

/-- An event outside the active state comes only while the app is active, and a
read long after the last activity only when the app came to be active that late.
Nothing is asked of the cache. -/
def IdleTimely (p : System Shared Flight × Monitor) : Action Call Outcome Event → Prop
  | .start (.getWalletSeed _) => idleLockMs ≤ p.1.shared.clock - p.1.shared.lastActivityMs →
      ∃ active, p.2.lastActive = some active ∧ p.1.shared.lastActivityMs + idleLockMs ≤ active
  | .event (.appStateChange .inactive) | .event (.appStateChange .background) =>
      p.2.outsideSince = none
  | _ => True

/-- The listener knows since when the app is outside. -/
def Noted (p : System Shared Flight × Monitor) : Prop :=
  ∀ since, p.2.outsideSince = some since → p.1.shared.backgroundedAtMs = some since

/-- No stretch of a call touches the timer of the stays outside. -/
theorem resume_backgroundedAtMs (aliased : Bool) (s : Shared) (f : Flight) (outcome : Outcome) :
    (resume aliased s f outcome).shared.backgroundedAtMs = s.backgroundedAtMs := by
  unfold resume
  cases f.stage with
  | awaiting operation =>
      have hKept : (perform aliased s f.call.id operation outcome).1.backgroundedAtMs =
          s.backgroundedAtMs := by
        cases outcome <;> cases operation <;> rfl
      simp only
      split
      · exact hKept
      · exact hKept
  | answered operation reply =>
      simp only [proceed]
      split <;> rfl
  | finished result => rfl

/-- Where events outside the active state are not repeated, the listener knows
since when the app is outside, after every step. -/
theorem noted_step {p : System Shared Flight × Monitor} {a : Action Call Outcome Event}
    (h : Noted p) (hInstalled : p.1.shared.appStateSub = true) (hScope : InScope p a)
    (hTimely : IdleTimely p a) : Noted (monitored aliased p a).1 := by
  obtain ⟨s, g⟩ := p
  cases a with
  | start call =>
      cases call with
      | getWalletSeed id =>
          show ∀ since, g.outsideSince = some since →
            (start s.shared (.getWalletSeed id)).shared.backgroundedAtMs = some since
          rw [start_getWalletSeed]
          split
          · exact h
          · exact h
      | setWalletSeed id seed => exact h
      | removeWalletSeed id => exact hScope.elim
  | resume number outcome =>
      have hOutside : (Monitor.watch s (.resume number outcome) g).outsideSince = g.outsideSince := by
        simp only [Monitor.watch]
        split <;> rfl
      intro since hSince
      have hNoted := h since (hOutside.symm.trans hSince)
      cases hFlight : s.calls[number]? with
      | none =>
          show (step (program aliased) s (.resume number outcome)).1.shared.backgroundedAtMs = _
          rw [step_resume_none hFlight]
          exact hNoted
      | some f =>
          show (step (program aliased) s (.resume number outcome)).1.shared.backgroundedAtMs = _
          rw [step_resume_some hFlight]
          exact (resume_backgroundedAtMs aliased s.shared f outcome).trans hNoted
  | event e =>
      cases e with
      | advance ms => exact h
      | appStateChange next =>
          intro since hSince
          rw [monitored_active hInstalled]
          cases next with
          | active => cases hSince
          | other => exact (hScope rfl).elim
          | inactive =>
              have hFirst : g.outsideSince = none := hTimely
              simp only [monitored, watched, Monitor.watch, hFirst] at hSince
              exact hSince
          | background =>
              have hFirst : g.outsideSince = none := hTimely
              simp only [monitored, watched, Monitor.watch, hFirst] at hSince
              exact hSince
      | _ => exact hScope.elim

/-- A long stay that the listener knows of is overdue when it ends. -/
theorem safe_of_timely {p : System Shared Flight × Monitor} {a : Action Call Outcome Event}
    (h : Noted p) (hTimely : IdleTimely p a) : IdleSafe p a := by
  cases a with
  | start call =>
      cases call with
      | getWalletSeed id => exact fun _ hIdle => hTimely hIdle
      | setWalletSeed id seed => trivial
      | removeWalletSeed id => trivial
  | resume number outcome => trivial
  | event e =>
      cases e with
      | appStateChange next =>
          cases next with
          | active =>
              rintro ⟨since, hSince, hLong⟩ _
              exact Or.inl ⟨since, h since hSince, hLong⟩
          | inactive => trivial
          | background => trivial
          | other => trivial
      | _ => trivial

/-- Where the events outside the active state are not repeated and a late read
follows a late return to it, no read comes from a cache that should be locked. -/
theorem idle_lock_timely (aliased : Bool) (s : System Shared Flight)
    (hInstalled : s.shared.appStateSub = true) (as : List (Action Call Outcome Event))
    (hScope : Along (monitored aliased) InScope (s, {}) as)
    (hTimely : Along (monitored aliased) IdleTimely (s, {}) as) :
    Along (monitored aliased) LocksWhenIdle (s, {}) as := by
  have hStart : Tracked s.shared {} ∧ Noted (s, {}) :=
    ⟨tracked_start hInstalled, fun since h => (by cases h)⟩
  have hBoth := (along_and (monitored aliased) InScope IdleTimely (s, {}) as).mpr ⟨hScope, hTimely⟩
  refine along_imp (monitored aliased) (fun p => Tracked p.1.shared p.2 ∧ Noted p) ?_ ?_ hStart hBoth
  · intro p a h hStep
    exact ⟨tracked_step h.1 hStep.1 (safe_of_timely h.2 hStep.2),
      noted_step h.2 h.1.installed hStep.1 hStep.2⟩
  · exact fun p a h hStep => locks_of_safe h.1 (safe_of_timely h.2 hStep.2)

def installed : System Shared Flight :=
  ⟨(event (initial 0 (fun _ => none) fun _ => false) .installIdleLock).1, []⟩

/-- A seed is stored, and cached at the end. -/
def storedSeed : List (Action Call Outcome Event) :=
  [.start (.setWalletSeed "w" "S"), .resume 0 .succeeds, .resume 0 .succeeds, .resume 0 .succeeds,
    .resume 0 .succeeds]

/-- Five minutes in the foreground, without any AppState event. -/
def foregroundIdle : List (Action Call Outcome Event) := storedSeed ++ [.event (.advance idleLockMs)]

/-- Almost six minutes outside the active state, a read and a second event
among them. -/
def longStay : List (Action Call Outcome Event) :=
  storedSeed ++ [.event (.appStateChange .background), .event (.advance 200000),
    .start (.getWalletSeed "w"), .event (.appStateChange .inactive), .event (.advance 150000),
    .event (.appStateChange .active)]

instance (p : System Shared Flight × Monitor) (a : Action Call Outcome Event) :
    Decidable (InScope p a) := by
  unfold InScope
  split <;> infer_instance

instance (p : System Shared Flight × Monitor) (a : Action Call Outcome Event) :
    Decidable (LocksWhenIdle p a) := by
  unfold LocksWhenIdle
  split <;> infer_instance

/-- Both times the next read is answered from the cache. -/
theorem idle_lock_missed :
    (Along (monitored false) InScope (installed, {})
        (foregroundIdle ++ [.start (.getWalletSeed "w")]) ∧
      ¬ Along (monitored false) LocksWhenIdle (installed, {})
        (foregroundIdle ++ [.start (.getWalletSeed "w")])) ∧
    Along (monitored false) InScope (installed, {}) (longStay ++ [.start (.getWalletSeed "w")]) ∧
      ¬ Along (monitored false) LocksWhenIdle (installed, {})
        (longStay ++ [.start (.getWalletSeed "w")]) := by
  decide

/-- A seed is read in the foreground, and again after a stay of six minutes
outside. -/
def shortAndLong : List (Action Call Outcome Event) :=
  storedSeed ++ [.event (.advance 200000), .start (.getWalletSeed "w"),
    .event (.appStateChange .inactive), .event (.advance 360000), .event (.appStateChange .active),
    .start (.getWalletSeed "w")]

theorem idle_lock_timely_sample :
    Along (monitored false) LocksWhenIdle (installed, {}) shortAndLong := by
  refine idle_lock_timely false installed rfl shortAndLong (by decide) ?_
  exact ⟨trivial, trivial, trivial, trivial, trivial, trivial, fun hIdle => absurd hIdle (by decide),
    rfl, trivial, trivial, fun _ => ⟨560000, by decide, by decide⟩, trivial⟩

theorem idle_lock_sample :
    Along (monitored false) LocksWhenIdle (installed, {})
      (storedSeed ++ [.event (.advance 200000), .start (.getWalletSeed "w")]) := by
  refine (idle_lock false installed rfl _ (by decide) ?_).2.1
  exact ⟨trivial, trivial, trivial, trivial, trivial, trivial,
    fun _ hIdle => absurd hIdle (by decide), trivial⟩

end SessionKeystore
