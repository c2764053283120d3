import StellarTimelock.Keystore.SessionKeystore
import Mathlib.Data.List.Nodup

/-! When the subscribers of the keystore hear of a transition between locked and
unlocked. The calls come one after the other, each run to its end. -/
namespace SessionKeystore

open Interleaving Execution

variable {aliased : Bool}

def isUnlocked (s : Shared) : Bool := !s.sessionCache.isEmpty

def callListener (throws : Nat → Bool) (listener : Nat) : EStateM Unit Notified PUnit := do
  modify fun called => called ++ [listener]
  if throws listener then throw ()

def notifyLockChange (throws : Nat → Bool) : List Nat → EStateM Unit Notified PUnit
  | [] => pure ⟨⟩
  | listener :: later => do
      tryCatch (callListener throws listener) fun _ => pure ⟨⟩
      notifyLockChange throws later

/-- The subscribers that have been called when the loop is left. -/
def called (throws : Nat → Bool) (listeners : List Nat) : Notified :=
  match EStateM.run (notifyLockChange throws listeners) [] with
  | .ok _ log => log
  | .error _ log => log

/-- A subscriber that throws keeps the loop from none of the others. -/
theorem run_notifyLockChange (throws : Nat → Bool) (listeners log : List Nat) :
    EStateM.run (notifyLockChange throws listeners) log = .ok ⟨⟩ (log ++ listeners) := by
  induction listeners generalizing log with
  | nil => simp [notifyLockChange]
  | cons listener later ih =>
      have hOne : EStateM.run (tryCatch (callListener throws listener)
          fun _ => (pure ⟨⟩ : EStateM Unit Notified PUnit)) log = .ok ⟨⟩ (log ++ [listener]) := by
        unfold callListener
        cases throws listener <;> rfl
      rw [notifyLockChange, EStateM.run_bind, hOne]
      show EStateM.run (notifyLockChange throws later) (log ++ [listener]) = _
      rw [ih, List.append_assoc, List.singleton_append]

/-- The loop calls every subscriber, in order, whichever of them throw, as each
call has its own `try`. -/
theorem called_eq (throws : Nat → Bool) (listeners : List Nat) :
    called throws listeners = listeners := by
  unfold called
  rw [run_notifyLockChange]
  exact List.nil_append listeners

/-- Some stretches of a call, given the outcomes of its storage calls. -/
def drive (aliased : Bool) (outcomes : Nat → Outcome) :
    Nat → Shared → Flight → Turn Shared Flight Notified
  | 0, s, f => ⟨s, f, []⟩
  | left + 1, s, f =>
      let turn := resume aliased s f (outcomes left)
      let rest := drive aliased outcomes left turn.shared turn.point
      { rest with observation := turn.observation ++ rest.observation }

/-- No call has more than four storage calls, with a stretch before and after
the answer of each. -/
def stretches : Nat := 8

inductive Operation where
  | call (call : Call) (outcomes : Nat → Outcome)
  | event (e : Event)

def runCall (aliased : Bool) (s : Shared) (call : Call) (outcomes : Nat → Outcome) :
    Turn Shared Flight Notified :=
  let first := start s call
  let rest := drive aliased outcomes stretches first.shared first.point
  { rest with observation := first.observation ++ rest.observation }

def operate (aliased : Bool) (s : Shared) : Operation → Shared × Notified
  | .call call outcomes =>
      let turn := runCall aliased s call outcomes
      (turn.shared, turn.observation)
  | .event e => event s e

/-- The wallet that an operation takes out of the cache without a lock. -/
def Operation.forgets : Operation → Option String
  | .call (.removeWalletSeed id) _ => some id
  | .event (.dropWallet id) => some id
  | _ => none

/-- Every subscriber is called once if the keystore has become locked or
unlocked, and nobody otherwise. -/
def FiresOnTransition (aliased : Bool) (throws : Nat → Bool) (s : Shared) (op : Operation) : Prop :=
  ∀ listener, (called throws (operate aliased s op).2).count listener =
    if listener ∈ s.lockListeners ∧ isUnlocked s ≠ isUnlocked (operate aliased s op).1 then 1 else 0

/-- The last wallet is not forgotten while someone is subscribed. -/
def KeepsAnother (s : Shared) (op : Operation) : Prop :=
  ∀ id, op.forgets = some id →
    s.lockListeners = [] ∨ s.sessionCache = [] ∨ s.sessionCache.delete id ≠ []

/-- How many storage calls are left after one, with itself. -/
def Call.left : Call → StorageCall → Nat
  | .getWalletSeed _, .getFlag => 4
  | .getWalletSeed _, .secureGet _ => 3
  | .getWalletSeed _, .secureSet _ _ => 2
  | .setWalletSeed _ _, .secureSet .authenticated _ => 2
  | .removeWalletSeed _, .secureRemove => 2
  | _, _ => 1

/-- Each storage call brings a call of the keystore nearer to its end. -/
theorem Call.left_next {call : Call} {operation after : StorageCall} {reply : Reply}
    (h : call.next operation reply = .wait after) : call.left after < call.left operation := by
  unfold Call.next at h
  split at h
  · cases h
    simp [Call.left]
  · split_ifs at h
  · split_ifs at h
    cases h
    simp [Call.left]
  · split_ifs at h
    cases h
    simp [Call.left]
  · cases h
  · cases h
    split_ifs <;> simp [Call.left]
  · split_ifs at h
  · cases h
  · cases h
    simp [Call.left]
  · cases h
  · cases h

def Flight.left (f : Flight) : Nat :=
  match f.stage with
  | .awaiting operation => 2 * f.call.left operation
  | .answered operation _ => 2 * f.call.left operation - 1
  | .finished _ => 0

/-- There are four stretches at most behind any storage call, and one at least.
-/
theorem Call.left_bounds (call : Call) (operation : StorageCall) :
    1 ≤ call.left operation ∧ call.left operation ≤ 4 := by
  unfold Call.left
  split <;> decide

theorem Flight.left_eq_zero {f : Flight} (h : f.left = 0) :
    ∃ result, f.stage = .finished result := by
  unfold Flight.left at h
  split at h
  · next operation _ =>
      have hPositive := (f.call.left_bounds operation).1
      omega
  · next operation _ _ =>
      have hPositive := (f.call.left_bounds operation).1
      omega
  · next result hStage => exact ⟨result, hStage⟩

/-- Every stretch brings a call closer to its end. -/
theorem resume_left (aliased : Bool) (s : Shared) (f : Flight) (outcome : Outcome) :
    (resume aliased s f outcome).point.left ≤ f.left - 1 := by
  unfold resume
  split
  · next operation hStage =>
      have hPositive := (f.call.left_bounds operation).1
      have hBefore : f.left = 2 * f.call.left operation := by
        unfold Flight.left
        rw [hStage]
      simp only
      split
      · show 2 * f.call.left operation - 1 ≤ f.left - 1
        omega
      · exact Nat.zero_le _
  · next operation reply hStage =>
      have hBefore : f.left = 2 * f.call.left operation - 1 := by
        unfold Flight.left
        rw [hStage]
      unfold proceed
      split
      · next after hNext =>
          have hLess := Call.left_next hNext
          show 2 * f.call.left after ≤ f.left - 1
          omega
      · exact Nat.zero_le _
      · exact Nat.zero_le _
  · next result hStage =>
      have hEnded : f.left = 0 := by
        unfold Flight.left
        rw [hStage]
      show f.left ≤ f.left - 1
      omega

/-- Driving a call for some stretches leaves that many fewer, so that the bound
on the stretches is enough for any call to end. -/
theorem drive_left (aliased : Bool) (outcomes : Nat → Outcome) (n : Nat) (s : Shared) (f : Flight) :
    (drive aliased outcomes n s f).point.left ≤ f.left - n := by
  induction n generalizing s f with
  | zero => exact Nat.le_refl _
  | succ n ih =>
      have hFirst := resume_left aliased s f (outcomes n)
      have hRest :=
        ih (resume aliased s f (outcomes n)).shared (resume aliased s f (outcomes n)).point
      show (drive aliased outcomes n _ _).point.left ≤ _
      omega

theorem start_left (s : Shared) (call : Call) : (start s call).point.left ≤ stretches := by
  unfold Flight.left stretches
  split
  · next operation _ =>
      have hBound := ((start s call).point.call.left_bounds operation).2
      omega
  · next operation _ _ =>
      have hBound := ((start s call).point.call.left_bounds operation).2
      omega
  · exact Nat.zero_le _

/-- A call is over after so many stretches, whatever its storage calls do. -/
theorem runCall_ends (aliased : Bool) (s : Shared) (call : Call) (outcomes : Nat → Outcome) :
    ∃ result, (runCall aliased s call outcomes).point.stage = .finished result := by
  apply Flight.left_eq_zero
  have hDriven := drive_left aliased outcomes stretches (start s call).shared (start s call).point
  have hStart := start_left s call
  unfold runCall
  simp only
  omega

/-- A stretch leaves the cache alone, or puts its seed there and ends its call. -/
theorem resume_caches (aliased : Bool) (s : Shared) (f : Flight) (outcome : Outcome) :
    let turn := resume aliased s f outcome
    turn.shared.lockListeners = s.lockListeners ∧
      ((turn.shared.sessionCache = s.sessionCache ∧ turn.observation = [] ∧
          turn.point.wasLocked = f.wasLocked) ∨
        ((∀ id, f.call ≠ .removeWalletSeed id) ∧ turn.shared.sessionCache ≠ [] ∧
          turn.observation = (if f.wasLocked then s.lockListeners else []) ∧
          ∃ result, turn.point.stage = .finished result)) := by
  intro turn
  have hTurn : turn = resume aliased s f outcome := rfl
  unfold resume at hTurn
  split at hTurn
  · next operation hStage =>
      have hKept :
          (perform aliased s f.call.id operation outcome).1.lockListeners = s.lockListeners := by
        cases outcome <;> cases operation <;> rfl
      have hCache := (perform_variables aliased s f.call.id operation outcome).1
      simp only at hTurn
      split at hTurn
      · rw [hTurn]
        exact ⟨hKept, Or.inl ⟨hCache, rfl, rfl⟩⟩
      · rw [hTurn]
        exact ⟨hKept, Or.inl ⟨hCache, rfl, rfl⟩⟩
  · next operation reply hStage =>
      unfold proceed at hTurn
      split at hTurn
      · rw [hTurn]
        exact ⟨rfl, Or.inl ⟨rfl, rfl, rfl⟩⟩
      · next seed result hNext =>
          rw [hTurn]
          refine ⟨rfl, Or.inr ⟨?_, List.cons_ne_nil _ _, rfl, result, rfl⟩⟩
          intro id hCall
          rw [hCall] at hNext
          exact next_removeWalletSeed hNext
      · rw [hTurn]
        exact ⟨rfl, Or.inl ⟨rfl, rfl, rfl⟩⟩
  · rw [hTurn]
    exact ⟨rfl, Or.inl ⟨rfl, rfl, rfl⟩⟩

theorem drive_finished (outcomes : Nat → Outcome) (n : Nat) (s : Shared) {f : Flight}
    {result : Result} (h : f.stage = .finished result) :
    drive aliased outcomes n s f = ⟨s, f, []⟩ := by
  induction n with
  | zero => rfl
  | succ n ih =>
      have hStays : resume aliased s f (outcomes n) = ⟨s, f, []⟩ := by
        unfold resume
        rw [h]
      show ({ drive aliased outcomes n _ _ with
        observation := _ } : Turn Shared Flight Notified) = _
      rw [hStays, ih]
      rfl

/-- What a call does after its start: nothing to the cache, or it caches a seed
and calls the subscribers if the keystore was locked when it started. -/
theorem drive_caches (aliased : Bool) (outcomes : Nat → Outcome) (n : Nat) (s : Shared)
    (f : Flight) :
    let turn := drive aliased outcomes n s f
    turn.shared.lockListeners = s.lockListeners ∧
      ((turn.shared.sessionCache = s.sessionCache ∧ turn.observation = []) ∨
        ((∀ id, f.call ≠ .removeWalletSeed id) ∧ turn.shared.sessionCache ≠ [] ∧
          turn.observation = if f.wasLocked then s.lockListeners else [])) := by
  induction n generalizing s f with
  | zero => exact ⟨rfl, Or.inl ⟨rfl, rfl⟩⟩
  | succ n ih =>
      intro turn
      obtain ⟨hListeners, hFirst⟩ := resume_caches aliased s f (outcomes n)
      have hTurn : turn = { drive aliased outcomes n (resume aliased s f (outcomes n)).shared
          (resume aliased s f (outcomes n)).point with
        observation := (resume aliased s f (outcomes n)).observation ++
          (drive aliased outcomes n (resume aliased s f (outcomes n)).shared
            (resume aliased s f (outcomes n)).point).observation } := rfl
      rcases hFirst with ⟨hCache, hSilent, hWas⟩ | ⟨hCall, hFilled, hNotified, result, hStage⟩
      · obtain ⟨hKept, hRest⟩ := ih (resume aliased s f (outcomes n)).shared
          (resume aliased s f (outcomes n)).point
        rw [hTurn]
        refine ⟨hKept.trans hListeners, ?_⟩
        rw [hSilent, List.nil_append, ← hCache, ← hListeners, ← hWas,
          ← resume_call aliased s f (outcomes n)]
        exact hRest
      · rw [hTurn, drive_finished outcomes n _ hStage, List.append_nil]
        exact ⟨hListeners, Or.inr ⟨hCall, hFilled, hNotified⟩⟩

/-- The subscribers are called exactly if the keystore has become locked or
unlocked. -/
structure Notifies (s : Shared) (after : Shared × Notified) : Prop where
  listeners : after.1.lockListeners = s.lockListeners
  calls : after.2 = if isUnlocked s ≠ isUnlocked after.1 then s.lockListeners else []

/-- Nothing has happened to the cache, or a lock. -/
structure Locking (s : Shared) (after : Shared × Notified) : Prop where
  listeners : after.1.lockListeners = s.lockListeners
  cache : (after.1.sessionCache = s.sessionCache ∧ after.2 = []) ∨
    (after.1.sessionCache = [] ∧ after.2 = if s.sessionCache.isEmpty then [] else s.lockListeners)

theorem Locking.notifies {s : Shared} {after : Shared × Notified} (h : Locking s after) :
    Notifies s after := by
  refine ⟨h.listeners, ?_⟩
  unfold isUnlocked
  rcases h.cache with ⟨hSame, hCalls⟩ | ⟨hEmpty, hCalls⟩
  · rw [hSame, hCalls]
    simp
  · rw [hEmpty, hCalls]
    cases s.sessionCache <;> simp

/-- Two things in a row that only lock do so together: if the first has emptied
the cache, the second finds nothing and calls nobody. -/
theorem Locking.trans {s t : Shared} {first second : Notified} {after : Shared × Notified}
    (h : Locking s (t, first)) (h' : Locking t after) (hCalls : second = after.2) :
    Locking s (after.1, first ++ second) := by
  refine ⟨h'.listeners.trans h.listeners, ?_⟩
  rw [hCalls]
  rcases h.cache with ⟨hSame, hFirst⟩ | ⟨hEmpty, hFirst⟩
  · have hRest := h'.cache
    simp only at hSame hFirst
    rw [hSame, h.listeners] at hRest
    rw [hFirst]
    exact hRest
  · have hSecond : after.1.sessionCache = [] ∧ after.2 = [] := by
      simp only at hEmpty
      rcases h'.cache with ⟨hSame, hNone⟩ | ⟨hNone, hSilent⟩
      · exact ⟨hSame.trans hEmpty, hNone⟩
      · rw [hEmpty] at hSilent
        exact ⟨hNone, hSilent⟩
    refine Or.inr ⟨hSecond.1, ?_⟩
    rw [hSecond.2, List.append_nil]
    exact hFirst

/-- `lockNow` empties the cache and calls the subscribers exactly if there was
something in it. -/
theorem lockNow_locking (s : Shared) : Locking s (lockNow s) := ⟨rfl, Or.inr ⟨rfl, rfl⟩⟩

theorem returnToActive_locking (s : Shared) (next : AppStateStatus) :
    Locking s (returnToActive s next) := by
  unfold returnToActive
  split
  · simp only
    split_ifs
    · exact ⟨rfl, (lockNow_locking { s with backgroundedAtMs := none }).cache⟩
    · exact ⟨rfl, Or.inl ⟨rfl, rfl⟩⟩
  · exact ⟨rfl, Or.inl ⟨rfl, rfl⟩⟩

theorem lockIfIdle_locking (s : Shared) : Locking s (lockIfIdle s) := by
  unfold lockIfIdle
  split_ifs
  · exact lockNow_locking s
  · exact ⟨rfl, Or.inl ⟨rfl, rfl⟩⟩

/-- The listener does the same with up to two locks in a row, of which one calls
the subscribers at most. -/
theorem appStateChange_locking (s : Shared) (next : AppStateStatus) :
    Locking s (appStateChange s next) := by
  unfold appStateChange
  split_ifs
  · exact ⟨rfl, Or.inl ⟨rfl, rfl⟩⟩
  · exact (returnToActive_locking s next).trans (lockIfIdle_locking _) rfl

/-- The start of a read or a write at most answers from the cache. -/
theorem start_caches (s : Shared) {call : Call} (h : ∀ id, call ≠ .removeWalletSeed id) :
    (start s call).shared.lockListeners = s.lockListeners ∧
      (start s call).shared.sessionCache = s.sessionCache ∧ (start s call).observation = [] ∧
      (start s call).point.wasLocked = s.sessionCache.isEmpty := by
  cases call with
  | getWalletSeed id =>
      unfold start
      simp only
      split <;> exact ⟨rfl, rfl, rfl, rfl⟩
  | setWalletSeed id seed => exact ⟨rfl, rfl, rfl, rfl⟩
  | removeWalletSeed id => exact absurd rfl (h id)

/-- What a call that is run to its end does to the cache, and whom it calls:
only its last stretch caches, and it calls the subscribers if the cache was
empty when the call began. -/
theorem runCall_caches (aliased : Bool) (s : Shared) (call : Call) (outcomes : Nat → Outcome) :
    let first := start s call
    let turn := runCall aliased s call outcomes
    turn.shared.lockListeners = first.shared.lockListeners ∧
      ((turn.shared.sessionCache = first.shared.sessionCache ∧
          turn.observation = first.observation) ∨
        ((∀ id, call ≠ .removeWalletSeed id) ∧ turn.shared.sessionCache ≠ [] ∧
          turn.observation = first.observation ++
            if first.point.wasLocked then first.shared.lockListeners else [])) := by
  obtain ⟨hListeners, hDriven⟩ := drive_caches aliased outcomes stretches
    (start s call).shared (start s call).point
  unfold runCall
  simp only
  refine ⟨hListeners, ?_⟩
  rcases hDriven with ⟨hSame, hNone⟩ | ⟨hOther, hFilled, hNotified⟩
  · exact Or.inl ⟨hSame, by rw [hNone, List.append_nil]⟩
  · rw [start_call] at hOther
    exact Or.inr ⟨hOther, hFilled, by rw [hNotified]⟩

/-- Whatever forgets no wallet notifies as it should. -/
theorem operate_notifies (s : Shared) {op : Operation} (h : op.forgets = none) :
    (operate aliased s op).2 =
      if isUnlocked s ≠ isUnlocked (operate aliased s op).1 then s.lockListeners else [] := by
  cases op with
  | call call outcomes =>
      have hCall : ∀ id, call ≠ .removeWalletSeed id := by
        rintro id rfl
        cases h
      obtain ⟨hListeners, hCache, hSilent, hWas⟩ := start_caches s hCall
      obtain ⟨_, hDriven⟩ := runCall_caches aliased s call outcomes
      rw [hSilent, List.nil_append] at hDriven
      show (runCall aliased s call outcomes).observation =
        if isUnlocked s ≠ isUnlocked (runCall aliased s call outcomes).shared then s.lockListeners
        else []
      unfold isUnlocked
      rcases hDriven with ⟨hSame, hNone⟩ | ⟨_, hFilled, hNotified⟩
      · rw [hSame, hCache, hNone]
        simp
      · rw [hNotified, hWas, hListeners, List.isEmpty_eq_false_iff.mpr hFilled]
        cases s.sessionCache <;> simp
  | event e =>
      cases e with
      | lockNow => exact (lockNow_locking s).notifies.calls
      | dropWallet id => cases h
      | subscribeSessionLock listener => simp [operate, event, isUnlocked]
      | unsubscribe listener => simp [operate, event, isUnlocked]
      | installIdleLock => simp [operate, event, isUnlocked]
      | uninstallIdleLock => simp [operate, event, isUnlocked]
      | appStateChange next =>
          unfold operate event
          simp only
          cases s.appStateSub with
          | true => exact (appStateChange_locking s next).notifies.calls
          | false => simp
      | advance ms => simp [operate, event, isUnlocked]

/-- Taking a wallet out of the cache calls nobody. -/
theorem operate_forgets (aliased : Bool) (s : Shared) {op : Operation} {id : String}
    (h : op.forgets = some id) :
    (operate aliased s op).2 = [] ∧
      (operate aliased s op).1.sessionCache = s.sessionCache.delete id ∧
      (operate aliased s op).1.lockListeners = s.lockListeners := by
  cases op with
  | call call outcomes =>
      cases call with
      | getWalletSeed other => cases h
      | setWalletSeed other seed => cases h
      | removeWalletSeed removed =>
          cases h
          obtain ⟨hListeners, hDriven⟩ := runCall_caches aliased s (.removeWalletSeed id) outcomes
          rcases hDriven with ⟨hSame, hNone⟩ | ⟨hOther, _⟩
          · exact ⟨hNone, hSame, hListeners⟩
          · exact absurd rfl (hOther id)
  | event e =>
      cases e with
      | dropWallet dropped =>
          cases h
          exact ⟨rfl, rfl, rfl⟩
      | lockNow => cases h
      | subscribeSessionLock listener => cases h
      | unsubscribe listener => cases h
      | installIdleLock => cases h
      | uninstallIdleLock => cases h
      | appStateChange next => cases h
      | advance ms => cases h

theorem operate_nodup {s : Shared} (h : s.lockListeners.Nodup) (op : Operation) :
    (operate aliased s op).1.lockListeners.Nodup := by
  cases op with
  | call call outcomes =>
      obtain ⟨hDriven, _⟩ := runCall_caches aliased s call outcomes
      have hStart : (start s call).shared.lockListeners = s.lockListeners := by
        cases call with
        | getWalletSeed id => exact (start_caches s (fun _ => Call.noConfusion)).1
        | setWalletSeed id seed => rfl
        | removeWalletSeed id => rfl
      show (runCall aliased s call outcomes).shared.lockListeners.Nodup
      rw [hDriven, hStart]
      exact h
  | event e =>
      cases e with
      | subscribeSessionLock listener => exact List.Nodup.insert h
      | unsubscribe listener => exact List.Nodup.erase listener h
      | lockNow => exact h
      | dropWallet id => exact h
      | installIdleLock => exact h
      | uninstallIdleLock => exact h
      | appStateChange next =>
          unfold operate event
          simp only
          cases s.appStateSub with
          | true =>
              simp only [if_true]
              rw [(appStateChange_locking s next).listeners]
              exact h
          | false => exact h
      | advance ms => exact h

/-- One operation calls whom it should, unless it forgets the last wallet. -/
theorem firesOnTransition_iff {s : Shared} (hNodup : s.lockListeners.Nodup)
    (throws : Nat → Bool) (op : Operation) :
    FiresOnTransition aliased throws s op ↔ KeepsAnother s op := by
  unfold FiresOnTransition KeepsAnother
  simp only [called_eq]
  cases hForgets : op.forgets with
  | some id =>
      obtain ⟨hSilent, hCache, _⟩ := operate_forgets aliased s hForgets
      have hChanged : isUnlocked s ≠ isUnlocked (operate aliased s op).1 ↔
          s.sessionCache ≠ [] ∧ s.sessionCache.delete id = [] := by
        unfold isUnlocked
        rw [hCache]
        cases hOld : s.sessionCache with
        | nil => simp [SessionCache.delete]
        | cons entry rest => cases SessionCache.delete (entry :: rest) id <;> simp
      rw [hSilent]
      simp only [List.count_nil, hChanged, Option.some.injEq, forall_eq']
      constructor
      · intro h
        by_contra hNot
        simp only [not_or, not_not] at hNot
        obtain ⟨listener, hMem⟩ := List.exists_mem_of_ne_nil _ hNot.1
        have hOne := h listener
        rw [if_pos ⟨hMem, hNot.2⟩] at hOne
        cases hOne
      · intro h listener
        rw [if_neg]
        rintro ⟨hMem, hFilled, hEmpty⟩
        rcases h with hNobody | hNone | hKept
        · rw [hNobody] at hMem
          cases hMem
        · exact hFilled hNone
        · exact hKept hEmpty
  | none =>
      refine iff_of_true ?_ (fun id h => by cases h)
      intro listener
      rw [operate_notifies s hForgets]
      by_cases hChanged : isUnlocked s ≠ isUnlocked (operate aliased s op).1
      · rw [if_pos hChanged]
        by_cases hMem : listener ∈ s.lockListeners
        · rw [if_pos ⟨hMem, hChanged⟩, List.count_eq_one_of_mem hNodup hMem]
        · rw [if_neg (fun h => hMem h.1), List.count_eq_zero_of_not_mem hMem]
      · rw [if_neg hChanged, if_neg (fun h => hChanged h.2), List.count_nil]

/-- In every run of the keystore, whatever its storage and its subscribers do,
each subscriber is called exactly once when the keystore becomes locked or
unlocked, and only then, if and only if no removal and no drop forgets the last
wallet while someone is subscribed. Every call of the run comes to its end. -/
theorem lock_listeners_iff (aliased : Bool) (throws : Nat → Bool) (clock : Nat)
    (slot : String → Option (Variant × String)) (flag : String → Bool) (ops : List Operation) :
    (∀ s call outcomes, ∃ result,
      (runCall aliased s call outcomes).point.stage = .finished result) ∧
      (Along (operate aliased) (FiresOnTransition aliased throws) (initial clock slot flag) ops ↔
        Along (operate aliased) KeepsAnother (initial clock slot flag) ops) :=
  ⟨runCall_ends aliased, along_congr (operate aliased) (fun s => s.lockListeners.Nodup)
    (fun _ op h => operate_nodup h op) (fun _ op h => firesOnTransition_iff h throws op)
    List.nodup_nil ops⟩

/-- Someone subscribes, a wallet is stored and then removed. -/
def removingRun : List Operation :=
  [.event (.subscribeSessionLock 1), .call (.setWalletSeed "w" "S") fun _ => .succeeds,
    .call (.removeWalletSeed "w") fun _ => .succeeds]

/-- The subscriber hears that the keystore is unlocked, and never that it is
locked again. -/
theorem removingRun_silent :
    ¬ Along (operate false) (FiresOnTransition false fun _ => false)
        (initial 0 (fun _ => none) fun _ => false) removingRun ∧
      trace (operate false) (initial 0 (fun _ => none) fun _ => false) removingRun =
        [[], [1], []] ∧
      isUnlocked (final (operate false) (initial 0 (fun _ => none) fun _ => false)
        removingRun) = false := by
  refine ⟨?_, by decide, by decide⟩
  rintro ⟨_, _, hRemoved, _⟩
  have hCount := hRemoved 1
  revert hCount
  decide

end SessionKeystore
