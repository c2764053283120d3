import StellarTimelock.Semantics.Interleaving
import Mathlib.Logic.Function.Basic

/-! The session keystore as concurrent calls over its cache and the device's
storage. Every storage call is a suspension point, and so is the moment between
its answer and the rest of the function. -/
namespace SessionKeystore

open Interleaving

/-- The two ways of reading and writing a secret: without and with a prompt. -/
inductive Variant where
  | plain
  | authenticated
  deriving DecidableEq, Repr

/-- A cached seed. Which locks had happened when the call that cached it
started is kept for later comparison; the program has no such field. -/
structure Entry where
  seed : String
  started : Nat
  deriving DecidableEq

/-- A map from wallet ids. The order of its entries is never used. -/
abbrev SessionCache := List (String × Entry)

namespace SessionCache

def get (cache : SessionCache) (id : String) : Option Entry :=
  (cache.find? fun entry => entry.1 = id).map (·.2)

def delete (cache : SessionCache) (id : String) : SessionCache :=
  cache.filter fun entry => entry.1 ≠ id

def set (cache : SessionCache) (id : String) (entry : Entry) : SessionCache :=
  (id, entry) :: cache.delete id

end SessionCache

inductive AppStateStatus where
  | active
  | inactive
  | background
  | other
  deriving DecidableEq, Repr

/-- The module's variables, the clock and the two stores of the device, each by
wallet id. A slot of the secure store knows by which variant it was written.
The log of the locks so far, `none` for all wallets, is not part of the
program. -/
structure Shared where
  sessionCache : SessionCache
  lockListeners : List Nat
  lastActivityMs : Nat
  appStateSub : Bool
  backgroundedAtMs : Option Nat
  clock : Nat
  slot : String → Option (Variant × String)
  flag : String → Bool
  locks : List (Option String)

inductive Call where
  | getWalletSeed (id : String)
  | setWalletSeed (id seed : String)
  | removeWalletSeed (id : String)
  deriving DecidableEq

def Call.id : Call → String
  | .getWalletSeed id => id
  | .setWalletSeed id _ => id
  | .removeWalletSeed id => id

/-- A call of the storage module, on the keys of one wallet. A write of the
flag carries the seed that the function has in hand. -/
inductive StorageCall where
  | getFlag
  | secureGet (variant : Variant)
  | secureSet (variant : Variant) (seed : String)
  | setFlag (seed : String)
  | secureRemove
  | removeFlag
  deriving DecidableEq

/-- What the storage module answers. -/
inductive Reply where
  | flag (migrated : Bool)
  | seed (seed : String)
  | done (ok : Bool)
  deriving DecidableEq

/-- What a call of the keystore comes to. -/
inductive Result where
  | seed (seed : Option String)
  | stored (ok : Bool)
  | removed
  | rejected
  deriving DecidableEq

inductive Stage where
  | awaiting (operation : StorageCall)
  | answered (operation : StorageCall) (reply : Reply)
  | finished (result : Result)
  deriving DecidableEq

/-- What a function does with an answer: call the storage again, cache a seed
and return, or return. -/
inductive Next where
  | wait (operation : StorageCall)
  | warm (seed : String) (result : Result)
  | finish (result : Result)
  deriving DecidableEq

/-- A call that has been started, with the number of locks before it. -/
structure Flight where
  call : Call
  wasLocked : Bool
  started : Nat
  stage : Stage
  deriving DecidableEq

/-- How a storage call goes: a call that falls back has no effect and answers
with its default, `false` or the empty text. -/
inductive Outcome where
  | succeeds
  | fallsBack
  | throws
  deriving DecidableEq, Repr

inductive Event where
  | lockNow
  | dropWallet (id : String)
  | subscribeSessionLock (listener : Nat)
  | unsubscribe (listener : Nat)
  | installIdleLock
  | uninstallIdleLock
  | appStateChange (next : AppStateStatus)
  | advance (ms : Nat)
  deriving DecidableEq

/-- The listeners that a stretch calls. -/
abbrev Notified := List Nat

def idleLockMs : Nat := 5 * 60 * 1000

def Shared.touch (s : Shared) : Shared := { s with lastActivityMs := s.clock }

/-- The text a read finds. Where the authenticated helpers are aliases of the
plain ones, both find what either has written. -/
def Shared.secureGet (aliased : Bool) (s : Shared) (variant : Variant) (id : String) : String :=
  match s.slot id with
  | some (writer, seed) => if writer = variant ∨ aliased = true then seed else ""
  | none => ""

/-- The effect of a storage call and its answer; no answer is an exception. -/
def perform (aliased : Bool) (s : Shared) (id : String) (operation : StorageCall)
    (outcome : Outcome) : Shared × Option Reply :=
  match outcome, operation with
  | .throws, _ => (s, none)
  | .fallsBack, .getFlag => (s, some (.flag false))
  | .fallsBack, .secureGet _ => (s, some (.seed ""))
  | .fallsBack, _ => (s, some (.done false))
  | .succeeds, .getFlag => (s, some (.flag (s.flag id)))
  | .succeeds, .secureGet variant => (s, some (.seed (s.secureGet aliased variant id)))
  | .succeeds, .secureSet variant seed =>
      ({ s with slot := Function.update s.slot id (some (variant, seed)) }, some (.done true))
  | .succeeds, .setFlag _ =>
      ({ s with flag := Function.update s.flag id true }, some (.done true))
  | .succeeds, .secureRemove =>
      ({ s with slot := Function.update s.slot id none }, some (.done true))
  | .succeeds, .removeFlag =>
      ({ s with flag := Function.update s.flag id false }, some (.done true))

def wait (s : Shared) (f : Flight) (operation : StorageCall) : Turn Shared Flight Notified :=
  ⟨s, { f with stage := .awaiting operation }, []⟩

def finish (s : Shared) (f : Flight) (result : Result) : Turn Shared Flight Notified :=
  ⟨s, { f with stage := .finished result }, []⟩

/-- The last stretch of a call that has a seed: cache it and return. -/
def warm (s : Shared) (f : Flight) (seed : String) (result : Result) :
    Turn Shared Flight Notified :=
  let cache := s.sessionCache.set f.call.id ⟨seed, f.started⟩
  { shared := { s with sessionCache := cache }.touch
    point := { f with stage := .finished result }
    observation := if f.wasLocked then s.lockListeners else [] }

/-- The first stretch of a call. -/
def start (s : Shared) (call : Call) : Turn Shared Flight Notified :=
  let f : Flight :=
    { call := call
      wasLocked := s.sessionCache.isEmpty
      started := s.locks.length
      stage := .finished .rejected }
  match call with
  | .getWalletSeed id =>
      match (s.sessionCache.get id).filter fun entry => entry.seed ≠ "" with
      | some cached => finish s.touch f (.seed (some cached.seed))
      | none => wait s f .getFlag
  | .setWalletSeed _ seed => wait s f (.secureSet .authenticated seed)
  | .removeWalletSeed id =>
      wait { s with sessionCache := s.sessionCache.delete id } f .secureRemove

/-- How a call goes on once a storage call of it has been answered. -/
def Call.next : Call → StorageCall → Reply → Next
  | .getWalletSeed _, .getFlag, .flag migrated =>
      .wait (.secureGet (if migrated then .authenticated else .plain))
  | .getWalletSeed _, .secureGet .authenticated, .seed seed =>
      if seed = "" then .finish (.seed none) else .warm seed (.seed (some seed))
  | .getWalletSeed _, .secureGet .plain, .seed legacy =>
      if legacy = "" then .finish (.seed none) else .wait (.secureSet .authenticated legacy)
  | .getWalletSeed _, .secureSet _ legacy, .done ok =>
      if ok then .wait (.setFlag legacy) else .warm legacy (.seed (some legacy))
  | .getWalletSeed _, .setFlag legacy, _ => .warm legacy (.seed (some legacy))
  | .setWalletSeed _ _, .secureSet .authenticated seed, .done ok =>
      .wait (if ok then .setFlag seed else .secureSet .plain seed)
  | .setWalletSeed _ _, .secureSet .plain seed, .done ok =>
      if ok then .warm seed (.stored true) else .finish (.stored false)
  | .setWalletSeed _ _, .setFlag seed, _ => .warm seed (.stored true)
  | .removeWalletSeed _, .secureRemove, _ => .wait .removeFlag
  | .removeWalletSeed _, .removeFlag, _ => .finish .removed
  -- None of the three makes any other storage call.
  | _, _, _ => .finish .rejected

def proceed (s : Shared) (f : Flight) (operation : StorageCall) (reply : Reply) :
    Turn Shared Flight Notified :=
  match f.call.next operation reply with
  | .wait operation => wait s f operation
  | .warm seed result => warm s f seed result
  | .finish result => finish s f result

/-- The later stretches of a call. -/
def resume (aliased : Bool) (s : Shared) (f : Flight) (outcome : Outcome) :
    Turn Shared Flight Notified :=
  match f.stage with
  | .awaiting operation =>
      let answer := perform aliased s f.call.id operation outcome
      match answer.2 with
      | some reply => ⟨answer.1, { f with stage := .answered operation reply }, []⟩
      | none => finish answer.1 f .rejected
  | .answered operation reply => proceed s f operation reply
  | .finished _ => ⟨s, f, []⟩

def dropWallet (s : Shared) (id : String) : Shared :=
  { s with sessionCache := s.sessionCache.delete id, locks := s.locks ++ [some id] }

def lockNow (s : Shared) : Shared × Notified :=
  ({ s with sessionCache := [], locks := s.locks ++ [none] },
    if s.sessionCache.isEmpty then [] else s.lockListeners)

/-- Back in the foreground: lock if the app was away for long. -/
def returnToActive (s : Shared) (next : AppStateStatus) : Shared × Notified :=
  match next, s.backgroundedAtMs with
  | .active, some since =>
      let back := { s with backgroundedAtMs := none }
      if idleLockMs ≤ s.clock - since then lockNow back else (back, [])
  | _, _ => (s, [])

/-- Lock if the keystore has not been used for long. -/
def lockIfIdle (s : Shared) : Shared × Notified :=
  if idleLockMs ≤ s.clock - s.lastActivityMs then lockNow s else (s, [])

/-- The listener of `installIdleLock`. -/
def appStateChange (s : Shared) (next : AppStateStatus) : Shared × Notified :=
  if next = .background ∨ next = .inactive then
    ({ s with backgroundedAtMs := some s.clock }, [])
  else
    let back := returnToActive s next
    let checked := lockIfIdle back.1
    (checked.1, back.2 ++ checked.2)

def event (s : Shared) : Event → Shared × Notified
  | .lockNow => lockNow s
  | .dropWallet id => (dropWallet s id, [])
  | .subscribeSessionLock listener =>
      ({ s with lockListeners := s.lockListeners.insert listener }, [])
  | .unsubscribe listener => ({ s with lockListeners := s.lockListeners.erase listener }, [])
  | .installIdleLock => ({ s with appStateSub := true }, [])
  | .uninstallIdleLock => ({ s with appStateSub := false, backgroundedAtMs := none }, [])
  | .appStateChange next => if s.appStateSub then appStateChange s next else (s, [])
  | .advance ms => ({ s with clock := s.clock + ms }, [])

/-- The keystore as a program of interleaved calls. -/
def program (aliased : Bool) : Program Shared Flight Call Outcome Event Notified where
  start := start
  resume := resume aliased
  event := event

/-- The module as it is loaded, over what the device holds. -/
def initial (clock : Nat) (slot : String → Option (Variant × String)) (flag : String → Bool) :
    Shared where
  sessionCache := []
  lockListeners := []
  lastActivityMs := clock
  appStateSub := false
  backgroundedAtMs := none
  clock := clock
  slot := slot
  flag := flag
  locks := []

namespace SessionCache

variable {cache : SessionCache} {id : String}

theorem mem_delete {entry : String × Entry} :
    entry ∈ cache.delete id ↔ entry ∈ cache ∧ entry.1 ≠ id := by
  unfold delete
  rw [List.mem_filter, decide_eq_true_iff]

theorem mem_set {new : Entry} {entry : String × Entry} :
    entry ∈ cache.set id new ↔ entry = (id, new) ∨ entry ∈ cache ∧ entry.1 ≠ id := by
  unfold set
  rw [List.mem_cons, mem_delete]

theorem mem_of_get {entry : Entry} (h : cache.get id = some entry) : (id, entry) ∈ cache := by
  unfold get at h
  obtain ⟨found, hFound, rfl⟩ := Option.map_eq_some_iff.mp h
  have hTest := List.find?_some hFound
  have hId : found.1 = id := of_decide_eq_true hTest
  rw [← hId]
  exact List.mem_of_find?_eq_some hFound

theorem get_set_self (entry : Entry) : (cache.set id entry).get id = some entry := by
  unfold get set
  rw [List.find?_cons_of_pos (by simp)]
  rfl

theorem get_set_of_ne {other : String} (h : other ≠ id) (entry : Entry) :
    (cache.set other entry).get id = cache.get id := by
  unfold get set delete
  rw [List.find?_cons_of_neg (by simpa using h), List.find?_filter]
  congr 1
  congr 1
  funext found
  by_cases hFound : found.1 = id
  · simp [hFound, Ne.symm h]
  · simp [hFound]

end SessionCache

/-- A storage call leaves the module's variables alone. -/
theorem perform_variables (aliased : Bool) (s : Shared) (id : String) (operation : StorageCall)
    (outcome : Outcome) :
    (perform aliased s id operation outcome).1.sessionCache = s.sessionCache ∧
      (perform aliased s id operation outcome).1.locks = s.locks := by
  cases outcome <;> cases operation <;> exact ⟨rfl, rfl⟩

/-- A storage call leaves the keys of other wallets alone. -/
theorem perform_elsewhere (aliased : Bool) (s : Shared) {id other : String} (hOther : other ≠ id)
    (operation : StorageCall) (outcome : Outcome) :
    (perform aliased s id operation outcome).1.slot other = s.slot other ∧
      (perform aliased s id operation outcome).1.flag other = s.flag other := by
  cases outcome with
  | throws => cases operation <;> exact ⟨rfl, rfl⟩
  | fallsBack => cases operation <;> exact ⟨rfl, rfl⟩
  | succeeds =>
      cases operation with
      | getFlag => exact ⟨rfl, rfl⟩
      | secureGet variant => exact ⟨rfl, rfl⟩
      | secureSet variant seed => exact ⟨Function.update_of_ne hOther _ _, rfl⟩
      | setFlag seed => exact ⟨rfl, Function.update_of_ne hOther _ _⟩
      | secureRemove => exact ⟨Function.update_of_ne hOther _ _, rfl⟩
      | removeFlag => exact ⟨rfl, Function.update_of_ne hOther _ _⟩

/-- No answer makes a removal cache a seed. -/
theorem next_removeWalletSeed {id seed : String} {operation : StorageCall} {reply : Reply}
    {result : Result} :
    (Call.removeWalletSeed id).next operation reply ≠ .warm seed result := by
  cases operation <;> intro h <;> cases h

/-- A storage call throws, and the function with it, or is answered. -/
theorem resume_awaiting (aliased : Bool) (s : Shared) {f : Flight} {operation : StorageCall}
    (hStage : f.stage = .awaiting operation) (outcome : Outcome) :
    (resume aliased s f outcome).point.stage = .finished .rejected ∨
      outcome ≠ .throws ∧
        ∃ reply, (resume aliased s f outcome).point.stage = .answered operation reply := by
  unfold resume
  rw [hStage]
  cases outcome with
  | throws => cases operation <;> exact Or.inl rfl
  | fallsBack => cases operation <;> exact Or.inr ⟨by decide, _, rfl⟩
  | succeeds => cases operation <;> exact Or.inr ⟨by decide, _, rfl⟩

/-- No stretch changes what its call is. -/
theorem resume_call (aliased : Bool) (s : Shared) (f : Flight) (outcome : Outcome) :
    (resume aliased s f outcome).point.call = f.call := by
  unfold resume
  split
  · simp only
    split <;> rfl
  · unfold proceed
    split <;> rfl
  · rfl

theorem start_call (s : Shared) (call : Call) : (start s call).point.call = call := by
  cases call with
  | getWalletSeed id =>
      simp only [start]
      split <;> rfl
  | setWalletSeed id seed => rfl
  | removeWalletSeed id => rfl

/-- An event at most takes entries out of the cache. -/
theorem event_free (s : Shared) (e : Event) : (event s e).1.slot = s.slot ∧
    (event s e).1.flag = s.flag ∧ ∀ entry ∈ (event s e).1.sessionCache, entry ∈ s.sessionCache := by
  have hLock (s : Shared) : (lockNow s).1.slot = s.slot ∧ (lockNow s).1.flag = s.flag ∧
      ∀ entry ∈ (lockNow s).1.sessionCache, entry ∈ s.sessionCache :=
    ⟨rfl, rfl, fun entry hEntry => absurd hEntry List.not_mem_nil⟩
  cases e with
  | lockNow => exact hLock s
  | dropWallet id => exact ⟨rfl, rfl, fun entry h => (SessionCache.mem_delete.mp h).1⟩
  | subscribeSessionLock listener => exact ⟨rfl, rfl, fun entry h => h⟩
  | unsubscribe listener => exact ⟨rfl, rfl, fun entry h => h⟩
  | installIdleLock => exact ⟨rfl, rfl, fun entry h => h⟩
  | uninstallIdleLock => exact ⟨rfl, rfl, fun entry h => h⟩
  | appStateChange next =>
      have hBack : (returnToActive s next).1.slot = s.slot ∧
          (returnToActive s next).1.flag = s.flag ∧
          ∀ entry ∈ (returnToActive s next).1.sessionCache, entry ∈ s.sessionCache := by
        unfold returnToActive
        split
        · simp only
          split
          · exact hLock { s with backgroundedAtMs := none }
          · exact ⟨rfl, rfl, fun entry h => h⟩
        · exact ⟨rfl, rfl, fun entry h => h⟩
      simp only [event]
      split
      · unfold appStateChange lockIfIdle
        split
        · exact ⟨rfl, rfl, fun entry h => h⟩
        · simp only
          split
          · exact ⟨hBack.1, hBack.2.1, fun entry hEntry => absurd hEntry List.not_mem_nil⟩
          · exact hBack
      · exact ⟨rfl, rfl, fun entry h => h⟩
  | advance ms => exact ⟨rfl, rfl, fun entry h => h⟩

end SessionKeystore
