import StellarTimelock.Keystore.LockEffect
import StellarTimelock.Keystore.Standing

/-! A lock under a call that can still fill the cache can be undone by this
call, whatever the storage holds. -/
namespace SessionKeystore

open Interleaving Execution

variable {aliased : Bool}

/-- The storage calls that a call of the keystore makes. -/
def Call.Makes : Call → StorageCall → Prop
  | .getWalletSeed _, .getFlag => True
  | .getWalletSeed _, .secureGet _ => True
  | .getWalletSeed _, .secureSet variant _ => variant = .authenticated
  | .getWalletSeed _, .setFlag _ => True
  | .setWalletSeed _ _, .secureSet _ _ => True
  | .setWalletSeed _ _, .setFlag _ => True
  | .removeWalletSeed _, .secureRemove => True
  | .removeWalletSeed _, .removeFlag => True
  | _, _ => False

/-- The kind of answer that a storage call is given. -/
def StorageCall.Answers : StorageCall → Reply → Prop
  | .getFlag, .flag _ => True
  | .secureGet _, .seed _ => True
  | .secureSet _ _, .done _ => True
  | .setFlag _, .done _ => True
  | .secureRemove, .done _ => True
  | .removeFlag, .done _ => True
  | _, _ => False

def Call.Stands (call : Call) : Stage → Prop
  | .awaiting operation => call.Makes operation
  | .answered operation reply => call.Makes operation ∧ operation.Answers reply
  | .finished _ => True

theorem perform_answers (aliased : Bool) (s : Shared) (id : String) (operation : StorageCall)
    (outcome : Outcome) {reply : Reply}
    (h : (perform aliased s id operation outcome).2 = some reply) : operation.Answers reply := by
  cases outcome with
  | throws => cases operation <;> cases h
  | fallsBack => cases operation <;> cases h <;> trivial
  | succeeds => cases operation <;> cases h <;> trivial

theorem next_makes {call : Call} {operation after : StorageCall} {reply : Reply}
    (h : call.next operation reply = .wait after) : call.Makes after := by
  unfold Call.next at h
  split at h
  · cases h
    trivial
  · split at h <;> cases h
  · split at h <;> cases h
    rfl
  · split at h <;> cases h
    trivial
  · cases h
  · next ok =>
      cases ok <;> cases h <;> trivial
  · split at h <;> cases h
  · cases h
  · cases h
    trivial
  · cases h
  · cases h

/-- A call that has been started stands where the code can stand. -/
theorem start_stands (s : Shared) (call : Call) : call.Stands (start s call).point.stage := by
  cases call with
  | getWalletSeed id =>
      simp only [start]
      split <;> trivial
  | setWalletSeed id seed => trivial
  | removeWalletSeed id => trivial

theorem resume_stands (s : Shared) {f : Flight} (h : f.call.Stands f.stage) (outcome : Outcome) :
    f.call.Stands (resume aliased s f outcome).point.stage := by
  unfold resume
  split
  · next operation hStage =>
      rw [hStage] at h
      simp only
      split
      · next reply hReply => exact ⟨h, perform_answers aliased s f.call.id operation outcome hReply⟩
      · trivial
  · next operation reply hStage =>
      unfold proceed
      split
      · next after hNext => exact next_makes hNext
      · trivial
      · trivial
  · next result hStage =>
      rw [hStage]
      trivial

/-- Every call stands where the code can stand, and knows the locks before it. -/
def Flight.Proper (s : Shared) (f : Flight) : Prop :=
  f.call.Stands f.stage ∧ f.started ≤ s.locks.length

theorem proper_outline (aliased : Bool) : Outline (program aliased) (fun _ _ => True)
    (fun _ _ => True) (fun _ s f => f.Proper s) where
  start past s call _ hFlights _ := by
    obtain ⟨hLocks, hStarted, _⟩ := start_fills s.shared call
    refine ⟨trivial, ⟨?_, ?_⟩, ?_⟩
    · show (start s.shared call).point.call.Stands (start s.shared call).point.stage
      rw [start_call]
      exact start_stands s.shared call
    · have hNow : (start s.shared call).point.started = (start s.shared call).shared.locks.length := by
        rw [hStarted, hLocks]
      exact Nat.le_of_eq hNow
    · intro f hf
      refine ⟨(hFlights f hf).1, ?_⟩
      show f.started ≤ (start s.shared call).shared.locks.length
      rw [hLocks]
      exact (hFlights f hf).2
  resume past s number f outcome _ hFlights hFlight _ := by
    have hFills : Fills s.shared f (resume aliased s.shared f outcome) := resume_fills _ _ _
    obtain ⟨hStands, hStarted⟩ := hFlights f (List.mem_of_getElem? hFlight)
    refine ⟨trivial, ⟨?_, ?_⟩, ?_⟩
    · show (resume aliased s.shared f outcome).point.call.Stands
        (resume aliased s.shared f outcome).point.stage
      rw [hFills.call]
      exact resume_stands s.shared hStands outcome
    · show (resume aliased s.shared f outcome).point.started ≤
        (resume aliased s.shared f outcome).shared.locks.length
      rw [hFills.started, hFills.locks]
      exact hStarted
    · intro other l _ hOther
      refine ⟨(hFlights l (List.mem_of_getElem? hOther)).1, ?_⟩
      show l.started ≤ (resume aliased s.shared f outcome).shared.locks.length
      rw [hFills.locks]
      exact (hFlights l (List.mem_of_getElem? hOther)).2
  event past s e _ hFlights _ := by
    refine ⟨trivial, ?_⟩
    intro f hf
    refine ⟨(hFlights f hf).1, ?_⟩
    show f.started ≤ (event s.shared e).1.locks.length
    rw [(event_locks s.shared e).1, List.length_append]
    exact Nat.le_add_right_of_le (hFlights f hf).2
  idle past s _ := ⟨trivial, fun _ h => h⟩

/-- The cache can come to hold an entry from before a lock. -/
def Spoilable (aliased : Bool) (s : System Shared Flight) : Prop :=
  CanReach (step (program aliased)) (fun after => ¬ LockHolds after.shared) s

/-- A new call can put any seed into the slot, by either variant. -/
theorem slot_filled (aliased : Bool) {s : System Shared Flight} {number started : Nat}
    {call : Call} {stage : Stage} (h : Standing s number call stage started) (id seed : String)
    (variant : Variant) :
    ∃ as, Standing (final (step (program aliased)) s as) number call stage started ∧
      (final (step (program aliased)) s as).shared.locks = s.shared.locks ∧
      (final (step (program aliased)) s as).shared.slot id = some (variant, seed) := by
  have hOther : s.calls.length ≠ number := Nat.ne_of_gt h.lt
  have hNew : Standing (step (program aliased) s (.start (.setWalletSeed id seed))).1
      s.calls.length (.setWalletSeed id seed) (.awaiting (.secureSet .authenticated seed))
      s.shared.locks.length := ⟨_, List.getElem?_concat_length, rfl, rfl, rfl⟩
  have hStarted := h.start aliased (.setWalletSeed id seed)
  cases variant with
  | authenticated =>
      refine ⟨[.start (.setWalletSeed id seed), .resume s.calls.length .succeeds],
        hStarted.aside aliased hOther .succeeds, step_resume_locks _ _ _, ?_⟩
      rw [final, final, final, hNew.performs aliased .succeeds]
      exact Function.update_self ..
  | plain =>
      have hRefused := hNew.answered aliased .fallsBack rfl
      have hFalls : Standing _ s.calls.length (.setWalletSeed id seed)
          (.awaiting (.secureSet .plain seed)) s.shared.locks.length := hRefused.waits aliased rfl
      have hAside := (hStarted.aside aliased hOther .fallsBack).aside aliased hOther .succeeds
      refine ⟨[.start (.setWalletSeed id seed), .resume s.calls.length .fallsBack,
        .resume s.calls.length .succeeds, .resume s.calls.length .succeeds],
        hAside.aside aliased hOther .succeeds, ?_, ?_⟩
      · rw [final, final, final, final, final, step_resume_locks, step_resume_locks,
          step_resume_locks]
        rfl
      · rw [final, final, final, final, final, hFalls.performs aliased .succeeds]
        exact Function.update_self ..

section Spoils

variable {s : System Shared Flight} {number started : Nat} {call : Call} {lock : Option String}

/-- A call that was overtaken by a lock and caches its seed in the next stretch
leaves an entry from before the lock. -/
theorem spoils_of_warm {operation : StorageCall} {reply : Reply} {seed : String} {result : Result}
    (h : Standing s number call (.answered operation reply) started)
    (hLock : lock ∈ s.shared.locks.drop started) (hCovers : Covers lock call.id)
    (hNext : call.next operation reply = .warm seed result) : Spoilable aliased s := by
  refine ⟨[.resume number .succeeds], ?_⟩
  obtain ⟨f, hFlight, rfl, hStage, rfl⟩ := h
  have hTurn : SessionKeystore.resume aliased s.shared f .succeeds = warm s.shared f seed result := by
    unfold SessionKeystore.resume proceed
    rw [hStage]
    simp only [hNext]
  intro hHolds
  rw [final, final, step_resume_some hFlight] at hHolds
  change LockHolds (SessionKeystore.resume aliased s.shared f .succeeds).shared at hHolds
  rw [hTurn] at hHolds
  exact hHolds (f.call.id, ⟨seed, f.started⟩) (SessionCache.mem_set.mpr (Or.inl rfl)) lock hLock
    hCovers

/-- A call that waits for a storage call whose failure lets it cache its seed. -/
theorem spoils_of_fallback {operation : StorageCall} {reply : Reply} {seed : String}
    {result : Result} (h : Standing s number call (.awaiting operation) started)
    (hLock : lock ∈ s.shared.locks.drop started) (hCovers : Covers lock call.id) (outcome : Outcome)
    (hReply : (perform aliased s.shared call.id operation outcome).2 = some reply)
    (hNext : call.next operation reply = .warm seed result) : Spoilable aliased s := by
  refine CanReach.cons (spoils_of_warm (h.answered aliased outcome hReply) ?_ hCovers hNext)
  rw [step_resume_locks]
  exact hLock

/-- The same for a call that first waits for one more storage operation, whose
reply lets it cache the seed. -/
theorem spoils_of_wait {operation after : StorageCall} {before reply : Reply} {seed : String}
    {result : Result} (h : Standing s number call (.answered operation before) started)
    (hLock : lock ∈ s.shared.locks.drop started) (hCovers : Covers lock call.id)
    (hWait : call.next operation before = .wait after) (outcome : Outcome)
    (hReply : ∀ s, (perform aliased s call.id after outcome).2 = some reply)
    (hNext : call.next after reply = .warm seed result) : Spoilable aliased s := by
  refine CanReach.cons
    (spoils_of_fallback (h.waits aliased hWait) ?_ hCovers outcome (hReply _) hNext)
  rw [step_resume_locks]
  exact hLock

theorem spoils_get_fetching {id : String} {variant : Variant}
    (h : Standing s number (.getWalletSeed id) (.awaiting (.secureGet variant)) started)
    (hLock : lock ∈ s.shared.locks.drop started) (hCovers : Covers lock id) :
    Spoilable aliased s := by
  obtain ⟨as, hStands, hLocks, hSlot⟩ := slot_filled aliased h id "seed" variant
  have hReply : (perform aliased (final (step (program aliased)) s as).shared id
      (.secureGet variant) .succeeds).2 = some (.seed "seed") := by
    show some (Reply.seed ((final (step (program aliased)) s as).shared.secureGet aliased variant id)) = _
    unfold Shared.secureGet
    rw [hSlot]
    simp only [true_or, if_true]
  have hFound := hStands.answered aliased .succeeds hReply
  have hLater : lock ∈ (step (program aliased) (final (step (program aliased)) s as)
      (.resume number .succeeds)).1.shared.locks.drop started := by
    rw [step_resume_locks, hLocks]
    exact hLock
  have hSpoilable : Spoilable aliased (step (program aliased)
      (final (step (program aliased)) s as) (.resume number .succeeds)).1 := by
    cases variant with
    | authenticated => exact spoils_of_warm hFound hLater hCovers rfl
    | plain => exact spoils_of_wait hFound hLater hCovers rfl .fallsBack (fun _ => rfl) rfl
  exact CanReach.append (step (program aliased)) as (CanReach.cons hSpoilable)

theorem spoils_get_looked {id : String} {migrated : Bool}
    (h : Standing s number (.getWalletSeed id) (.answered .getFlag (.flag migrated)) started)
    (hLock : lock ∈ s.shared.locks.drop started) (hCovers : Covers lock id) :
    Spoilable aliased s := by
  refine CanReach.cons (spoils_get_fetching (h.waits aliased rfl) ?_ hCovers)
  rw [step_resume_locks]
  exact hLock

/-- A read that a lock has overtaken, and that can still find a seed, can go on
to cache it. -/
theorem spoils_get {id : String} {stage : Stage}
    (h : Standing s number (.getWalletSeed id) stage started)
    (hStands : (Call.getWalletSeed id).Stands stage)
    (hGoesOn : ∀ operation reply, stage = .answered operation reply →
      ∀ result, (Call.getWalletSeed id).next operation reply ≠ .finish result)
    (hUnfinished : ∀ result, stage ≠ .finished result)
    (hLock : lock ∈ s.shared.locks.drop started) (hCovers : Covers lock id) :
    Spoilable aliased s := by
  cases stage with
  | awaiting operation =>
      cases operation with
      | getFlag =>
          refine CanReach.cons (spoils_get_looked (h.answered aliased .fallsBack rfl) ?_ hCovers)
          rw [step_resume_locks]
          exact hLock
      | secureGet variant => exact spoils_get_fetching h hLock hCovers
      | secureSet variant seed => exact spoils_of_fallback h hLock hCovers .fallsBack rfl rfl
      | setFlag seed => exact spoils_of_fallback h hLock hCovers .fallsBack rfl rfl
      | secureRemove => exact hStands.elim
      | removeFlag => exact hStands.elim
  | answered operation reply =>
      obtain ⟨hMakes, hAnswers⟩ := hStands
      have hNext := hGoesOn operation reply rfl
      cases operation with
      | getFlag =>
          cases reply with
          | flag migrated => exact spoils_get_looked h hLock hCovers
          | seed text => exact hAnswers.elim
          | done ok => exact hAnswers.elim
      | secureGet variant =>
          cases reply with
          | flag migrated => exact hAnswers.elim
          | done ok => exact hAnswers.elim
          | seed text =>
              by_cases hText : text = ""
              · subst hText
                cases variant <;> exact absurd rfl (hNext _)
              · cases variant with
                | authenticated => exact spoils_of_warm h hLock hCovers (if_neg hText)
                | plain =>
                    exact spoils_of_wait h hLock hCovers (if_neg hText) .fallsBack (fun _ => rfl) rfl
      | secureSet variant seed =>
          cases reply with
          | flag migrated => exact hAnswers.elim
          | seed text => exact hAnswers.elim
          | done ok =>
              cases ok with
              | true => exact spoils_of_wait h hLock hCovers rfl .fallsBack (fun _ => rfl) rfl
              | false => exact spoils_of_warm h hLock hCovers rfl
      | setFlag seed => exact spoils_of_warm h hLock hCovers rfl
      | secureRemove => exact hMakes.elim
      | removeFlag => exact hMakes.elim
  | finished result => exact absurd rfl (hUnfinished result)

/-- A write that a lock has overtaken, and that has not failed, can go on to
cache its seed. -/
theorem spoils_set {id seed : String} {stage : Stage}
    (h : Standing s number (.setWalletSeed id seed) stage started)
    (hStands : (Call.setWalletSeed id seed).Stands stage)
    (hGoesOn : ∀ operation reply, stage = .answered operation reply →
      ∀ result, (Call.setWalletSeed id seed).next operation reply ≠ .finish result)
    (hUnfinished : ∀ result, stage ≠ .finished result)
    (hLock : lock ∈ s.shared.locks.drop started) (hCovers : Covers lock id) :
    Spoilable aliased s := by
  cases stage with
  | awaiting operation =>
      cases operation with
      | secureSet variant text =>
          cases variant with
          | authenticated =>
              refine CanReach.cons (spoils_of_wait (h.answered aliased .fallsBack rfl) ?_ hCovers
                rfl .succeeds (fun _ => rfl) rfl)
              rw [step_resume_locks]
              exact hLock
          | plain => exact spoils_of_fallback h hLock hCovers .succeeds rfl rfl
      | setFlag text => exact spoils_of_fallback h hLock hCovers .fallsBack rfl rfl
      | getFlag => exact hStands.elim
      | secureGet variant => exact hStands.elim
      | secureRemove => exact hStands.elim
      | removeFlag => exact hStands.elim
  | answered operation reply =>
      obtain ⟨hMakes, hAnswers⟩ := hStands
      have hNext := hGoesOn operation reply rfl
      cases operation with
      | secureSet variant text =>
          cases reply with
          | flag migrated => exact hAnswers.elim
          | seed text => exact hAnswers.elim
          | done ok =>
              cases variant with
              | authenticated =>
                  cases ok with
                  | true => exact spoils_of_wait h hLock hCovers rfl .fallsBack (fun _ => rfl) rfl
                  | false => exact spoils_of_wait h hLock hCovers rfl .succeeds (fun _ => rfl) rfl
              | plain =>
                  cases ok with
                  | true => exact spoils_of_warm h hLock hCovers rfl
                  | false => exact absurd rfl (hNext _)
      | setFlag text => exact spoils_of_warm h hLock hCovers rfl
      | getFlag => exact hMakes.elim
      | secureGet variant => exact hMakes.elim
      | secureRemove => exact hMakes.elim
      | removeFlag => exact hMakes.elim
  | finished result => exact absurd rfl (hUnfinished result)

end Spoils

/-- A lock that is not quiet leaves a call that can undo it. -/
theorem spoilable_of_lock (aliased : Bool) {s : System Shared Flight}
    (hProper : ∀ f ∈ s.calls, f.Proper s.shared)
    {a : Action Call Outcome Event} (hLoud : ¬ LocksQuietly s a) :
    Spoilable aliased (step (program aliased) s a).1 := by
  cases a with
  | start call => exact absurd trivial hLoud
  | resume number outcome => exact absurd trivial hLoud
  | event e =>
      simp only [LocksQuietly, not_forall, not_not] at hLoud
      obtain ⟨lock, hNew, f, hf, hMay, hCovers⟩ := hLoud
      obtain ⟨number, hNumber⟩ := List.mem_iff_getElem?.mp hf
      obtain ⟨hStands, hStarted⟩ := hProper f hf
      have hLock : lock ∈ (step (program aliased) s (.event e)).1.shared.locks.drop f.started := by
        show lock ∈ (event s.shared e).1.locks.drop f.started
        rw [(event_locks s.shared e).1, List.drop_append]
        refine List.mem_append_right _ ?_
        rw [Nat.sub_eq_zero_of_le hStarted]
        exact hNew
      have hStanding : Standing (step (program aliased) s (.event e)).1 number f.call f.stage
          f.started := ⟨f, hNumber, rfl, rfl, rfl⟩
      obtain ⟨hKind, hStage⟩ := hMay
      have hGoesOn : ∀ operation reply, f.stage = .answered operation reply →
          ∀ result, f.call.next operation reply ≠ .finish result := by
        intro operation reply hAnswered
        rw [hAnswered] at hStage
        exact hStage
      have hUnfinished : ∀ result, f.stage ≠ .finished result := by
        intro result hFinished
        rw [hFinished] at hStage
        exact hStage
      cases hCall : f.call with
      | getWalletSeed id =>
          rw [hCall] at hStanding hStands hGoesOn hCovers
          exact spoils_get hStanding hStands hGoesOn hUnfinished hLock hCovers
      | setWalletSeed id seed =>
          rw [hCall] at hStanding hStands hGoesOn hCovers
          exact spoils_set hStanding hStands hGoesOn hUnfinished hLock hCovers
      | removeWalletSeed id => exact absurd hCall (hKind id)

/-- In every run that never locks a wallet under a call that can still cache
its seed, all that the cache ever holds was put there by calls that started
after the last lock of their wallet. After the first lock that breaks this the
run can go on so that the cache holds an entry from before the lock. -/
theorem lock_effective (clock : Nat) (slot : String → Option (Variant × String))
    (flag : String → Bool) (as : List (Action Call Outcome Event))
    (hAlong : Along (step (program aliased)) LocksQuietly ⟨initial clock slot flag, []⟩ as) :
    LockHolds (final (step (program aliased)) ⟨initial clock slot flag, []⟩ as).shared ∧
      ∀ a, ¬ LocksQuietly (final (step (program aliased)) ⟨initial clock slot flag, []⟩ as) a →
        ∃ after, ¬ LockHolds
          (final (step (program aliased)) ⟨initial clock slot flag, []⟩ (as ++ a :: after)).shared := by
  refine ⟨lockHolds_along clock slot flag as hAlong, ?_⟩
  intro a hLoud
  have hProper := (proper_outline aliased).along trivial as
    (along_trivial (step (program aliased)) ⟨initial clock slot flag, []⟩ as)
  obtain ⟨after, hSpoiled⟩ := spoilable_of_lock aliased hProper.2 hLoud
  refine ⟨after, ?_⟩
  rw [final_append]
  exact hSpoiled

/-- One wallet with a bound seed. -/
def boundSlot : String → Option (Variant × String) :=
  fun id => if id = "w" then some (.authenticated, "SEED") else none

/-- The user is prompted and the app is locked before the function goes on. -/
def lockedRun : List (Action Call Outcome Event) :=
  [.start (.getWalletSeed "w"), .resume 0 .succeeds, .resume 0 .succeeds, .resume 0 .succeeds,
    .event .lockNow, .resume 0 .succeeds]

/-- The seed is cached after the lock, and the next read needs no prompt. -/
theorem lockedRun_unlocks :
    ¬ LockHolds (final (step (program false))
      ⟨initial 0 boundSlot (fun id => id = "w"), []⟩ lockedRun).shared ∧
    (final (step (program false)) ⟨initial 0 boundSlot (fun id => id = "w"), []⟩
      (lockedRun ++ [.start (.getWalletSeed "w")])).calls[1]?.map (·.stage) =
        some (.finished (.seed (some "SEED"))) := by
  constructor
  · intro h
    exact h ("w", ⟨"SEED", 0⟩) (List.mem_singleton.mpr rfl) none (List.mem_singleton.mpr rfl)
      (Or.inl rfl)
  · decide

/-- A wallet is dropped when its read has ended and the seed of another one is
being set, and is read again afterwards. -/
def quietRun : List (Action Call Outcome Event) :=
  [.start (.getWalletSeed "w"), .resume 0 .succeeds, .resume 0 .succeeds, .resume 0 .succeeds,
    .resume 0 .succeeds, .start (.setWalletSeed "v" "OTHER"), .resume 1 .succeeds,
    .event (.dropWallet "w"), .resume 1 .succeeds, .start (.getWalletSeed "w"),
    .resume 2 .succeeds, .resume 1 .succeeds, .resume 2 .succeeds, .resume 2 .succeeds,
    .resume 1 .succeeds, .resume 2 .succeeds]

/-- Both seeds are cached in the end, each by a call that no lock has overtaken. -/
theorem lock_effective_sample :
    let s := final (step (program false)) ⟨initial 0 boundSlot (fun id => id = "w"), []⟩ quietRun
    LockHolds s.shared ∧ s.shared.sessionCache = [("w", ⟨"SEED", 1⟩), ("v", ⟨"OTHER", 0⟩)] := by
  intro s
  have hQuiet : Along (step (program false)) LocksQuietly
      ⟨initial 0 boundSlot (fun id => id = "w"), []⟩ quietRun := by
    refine ⟨trivial, trivial, trivial, trivial, trivial, trivial, trivial, ?_, trivial, trivial, trivial,
      trivial, trivial, trivial, trivial, trivial, trivial⟩
    intro lock hLock f hf hMay
    rw [List.mem_singleton.mp hLock]
    rcases List.mem_cons.mp hf with rfl | hf
    · exact absurd hMay.2 id
    · rw [List.mem_singleton.mp hf]
      rintro (hAll | hSame)
      · cases hAll
      · exact absurd hSame (by decide)
  exact ⟨(lock_effective 0 boundSlot (fun id => id = "w") quietRun hQuiet).1, by decide⟩

end SessionKeystore
