import StellarTimelock.Keystore.Removal
import StellarTimelock.Keystore.Standing

/-! A removal that does not pass `secureRemove` cleanly can be undone, also once
every call has ended. -/
namespace SessionKeystore

open Interleaving Execution

variable {aliased : Bool}

/-- Something is cached, stored or flagged for the wallet. -/
def Leftover (s : Shared) (id : String) : Prop :=
  s.sessionCache.get id ≠ none ∨ s.slot id ≠ none ∨ s.flag id = true

def AllFinished (s : System Shared Flight) : Prop :=
  ∀ f ∈ s.calls, ∃ result, f.stage = .finished result

namespace SessionCache

variable {cache : SessionCache} {id : String}

theorem get_ne_none {entry : String × Entry} (h : entry ∈ cache) (hId : entry.1 = id) :
    cache.get id ≠ none := by
  unfold get
  intro hNone
  have hAll := List.find?_eq_none.mp (Option.map_eq_none_iff.mp hNone) entry h
  exact hAll (decide_eq_true hId)

end SessionCache

/-- If something is left of a wallet, then something is left after a stretch of
any call whose storage operation throws. -/
theorem Leftover.throws {s : Shared} {id : String} (h : Leftover s id) (f : Flight) :
    Leftover (resume aliased s f .throws).shared id := by
  unfold resume
  split
  · next operation _ => cases operation <;> exact h
  · next operation reply _ =>
      unfold proceed
      split
      · exact h
      · rcases h with hCached | hRest
        · refine Or.inl ?_
          show (s.sessionCache.set f.call.id _).get id ≠ none
          by_cases hOwn : f.call.id = id
          · rw [hOwn, SessionCache.get_set_self]
            exact Option.some_ne_none _
          · rw [SessionCache.get_set_of_ne hOwn]
            exact hCached
        · exact Or.inr hRest
      · exact h
  · exact h

/-- Two failing stretches end a call, wherever it stands: the first takes it
past its storage operation, and the second to its result. -/
theorem resume_throws_twice (aliased : Bool) (s s' : Shared) (f : Flight) :
    ∃ result, (resume aliased s' (resume aliased s f .throws).point .throws).point.stage =
      .finished result := by
  obtain ⟨call, wasLocked, started, stage⟩ := f
  cases stage with
  | awaiting operation => cases operation <;> exact ⟨_, rfl⟩
  | answered operation reply =>
      have hTurn : (resume aliased s ⟨call, wasLocked, started, .answered operation reply⟩ .throws) =
          proceed s ⟨call, wasLocked, started, .answered operation reply⟩ operation reply := rfl
      rw [hTurn]
      unfold proceed
      split
      · next after _ => cases after <;> exact ⟨_, rfl⟩
      · exact ⟨_, rfl⟩
      · exact ⟨_, rfl⟩
  | finished result => exact ⟨result, rfl⟩

/-- Resuming a call changes neither which calls there are nor what they were
called with. -/
theorem step_resume_calls (s : System Shared Flight) (number : Nat) (outcome : Outcome) :
    (step (program aliased) s (.resume number outcome)).1.calls.map (·.call) =
      s.calls.map (·.call) := by
  cases hFlight : s.calls[number]? with
  | none => rw [step_resume_none hFlight]
  | some f =>
      rw [step_resume_some hFlight]
      show (s.calls.set number (resume aliased s.shared f outcome).point).map (·.call) = _
      obtain ⟨hBound, hGet⟩ := List.getElem?_eq_some_iff.mp hFlight
      rw [List.map_set, resume_call]
      apply List.ext_getElem?
      intro j
      rw [List.getElem?_set]
      split
      · next hSame =>
          subst hSame
          rw [List.getElem?_map, hFlight, if_pos (by rw [List.length_map]; exact hBound)]
          rfl
      · rfl

/-- That no seed is set after a removal depends only on the calls and not on how
far they have come. -/
theorem NoSetAfter.of_calls {s s' : System Shared Flight} {number : Nat} {id : String}
    (hCalls : s'.calls.map (·.call) = s.calls.map (·.call)) (h : NoSetAfter s number id) :
    NoSetAfter s' number id := by
  intro later f seed hLater hFlight hSet
  have hMap : (s.calls.map (·.call))[later]? = some f.call := by
    rw [← hCalls, List.getElem?_map, hFlight]
    rfl
  rw [List.getElem?_map] at hMap
  obtain ⟨g, hg, hCall⟩ := Option.map_eq_some_iff.mp hMap
  exact h later g seed hLater hg (hCall.trans hSet)

/-- Steps that only bring calls to their end, and leave what is left of a
wallet. -/
structure Onward (id : String) (s s' : System Shared Flight) : Prop where
  calls : s'.calls.map (·.call) = s.calls.map (·.call)
  finished : ∀ (number : Nat) (f : Flight) (result : Result), s.calls[number]? = some f →
    f.stage = .finished result → s'.calls[number]? = some f
  leftover : Leftover s.shared id → Leftover s'.shared id

/-- One onward stretch of the system after another is an onward stretch. -/
theorem Onward.trans {id : String} {s s' s'' : System Shared Flight} (h : Onward id s s')
    (h' : Onward id s' s'') : Onward id s s'' where
  calls := h'.calls.trans h.calls
  finished number f result hFlight hStage :=
    h'.finished number f result (h.finished number f result hFlight hStage) hStage
  leftover hLeft := h'.leftover (h.leftover hLeft)

/-- Resuming a call with an operation that throws goes onward. -/
theorem onward_throws (aliased : Bool) (id : String) (s : System Shared Flight) (number : Nat) :
    Onward id s (step (program aliased) s (.resume number .throws)).1 := by
  cases hFlight : s.calls[number]? with
  | none =>
      rw [step_resume_none hFlight]
      exact ⟨rfl, fun _ _ _ h _ => h, fun h => h⟩
  | some g =>
      refine ⟨step_resume_calls s number .throws, ?_, ?_⟩
      · intro other f result hOther hStage
        rw [step_resume_some hFlight]
        show (s.calls.set number (resume aliased s.shared g .throws).point)[other]? = some f
        by_cases hSame : number = other
        · subst hSame
          have hFound : g = f := Option.some.inj (hFlight.symm.trans hOther)
          have hStays : (resume aliased s.shared f .throws).point = f := by
            unfold resume
            rw [hStage]
          rw [hFound, hStays, List.getElem?_set_self (List.getElem?_eq_some_iff.mp hOther).1]
        · rw [List.getElem?_set_ne hSame]
          exact hOther
      · intro hLeft
        rw [step_resume_some hFlight]
        exact hLeft.throws g

/-- The stage of a call after one more stretch of it. -/
theorem step_resume_stage (aliased : Bool) (s : System Shared Flight) {number : Nat} {f : Flight}
    (h : s.calls[number]? = some f) (outcome : Outcome) :
    (step (program aliased) s (.resume number outcome)).1.calls[number]? =
      some (resume aliased s.shared f outcome).point := by
  rw [step_resume_some h]
  exact List.getElem?_set_self (List.getElem?_eq_some_iff.mp h).1

/-- Make the first `n` calls fail until they have ended. -/
def windUp : Nat → List (Action Call Outcome Event)
  | 0 => []
  | n + 1 => windUp n ++ [.resume n .throws, .resume n .throws]

/-- Winding up the first calls goes onward, by induction on how many there are.
-/
theorem windUp_onward (aliased : Bool) (id : String) (s : System Shared Flight) (n : Nat) :
    Onward id s (final (step (program aliased)) s (windUp n)) := by
  induction n with
  | zero => exact ⟨rfl, fun _ _ _ h _ => h, fun h => h⟩
  | succ n ih =>
      rw [windUp, final_append]
      exact ih.trans ((onward_throws aliased id _ n).trans (onward_throws aliased id _ n))

/-- After the winding up, each of the calls that it was for has finished. -/
theorem windUp_ends (aliased : Bool) (s : System Shared Flight) {n : Nat}
    (hBound : n ≤ s.calls.length) (number : Nat) (hNumber : number < n) :
    ∃ f result, (final (step (program aliased)) s (windUp n)).calls[number]? = some f ∧
      f.stage = .finished result := by
  induction n with
  | zero => exact absurd hNumber (Nat.not_lt_zero number)
  | succ n ih =>
      rw [windUp, final_append]
      have hOnward := windUp_onward aliased "" s n
      rcases Nat.lt_succ_iff_lt_or_eq.mp hNumber with hOld | rfl
      · obtain ⟨f, result, hFlight, hStage⟩ := ih (Nat.le_of_succ_le hBound) hOld
        exact ⟨f, result, ((onward_throws aliased "" _ n).trans
          (onward_throws aliased "" _ n)).finished number f result hFlight hStage, hStage⟩
      · generalize final (step (program aliased)) s (windUp number) = t at hOnward
        have hThere : number < t.calls.length := by
          have hLength := congrArg List.length hOnward.calls
          rw [List.length_map, List.length_map] at hLength
          omega
        obtain ⟨f, hFlight⟩ : ∃ f, t.calls[number]? = some f :=
          ⟨_, List.getElem?_eq_getElem hThere⟩
        have hFirst := step_resume_stage aliased t hFlight .throws
        obtain ⟨result, hEnded⟩ := resume_throws_twice aliased t.shared
          (step (program aliased) t (.resume number .throws)).1.shared f
        exact ⟨_, result, step_resume_stage aliased _ hFirst .throws, hEnded⟩

/-- The run can go on so that every call has ended and a removal that has
resolved has left something. -/
def Restorable (aliased : Bool) (s : System Shared Flight) : Prop :=
  CanReach (step (program aliased)) (fun after => AllFinished after ∧ ¬ Cleared after) s

section Restores

variable {s : System Shared Flight} {number started : Nat} {id : String} {reply : Reply}

/-- If a removal has finished with something left over and no later call sets
the seed, the remaining calls can be wound up and what was left stays left. -/
theorem restorable_of_removed
    (h : Standing s number (.removeWalletSeed id) (.finished .removed) started)
    (hNoSet : NoSetAfter s number id) (hLeft : Leftover s.shared id) : Restorable aliased s := by
  have hOnward := windUp_onward aliased id s s.calls.length
  refine ⟨windUp s.calls.length, ?_, ?_⟩
  · intro f hf
    obtain ⟨other, hFlight⟩ := List.mem_iff_getElem?.mp hf
    have hOther : other < s.calls.length := by
      have hLength := congrArg List.length hOnward.calls
      rw [List.length_map, List.length_map] at hLength
      exact hLength ▸ (List.getElem?_eq_some_iff.mp hFlight).1
    obtain ⟨g, result, hEnded, hStage⟩ := windUp_ends aliased s (Nat.le_refl _) other hOther
    cases hFlight.symm.trans hEnded
    exact ⟨result, hStage⟩
  · intro hCleared
    obtain ⟨f, hFlight, hCall, hStage, _⟩ := h
    obtain ⟨hCache, hSlot, hFlag⟩ := hCleared number f id
      (hOnward.finished number f .removed hFlight hStage) hCall hStage (hNoSet.of_calls hOnward.calls)
    rcases hOnward.leftover hLeft with hCached | hStored | hFlagged
    · exact hCached hCache
    · exact hStored hSlot
    · exact Bool.eq_false_iff.mp hFlag hFlagged

/-- The same for a removal that has nothing left to do but to return. -/
theorem restorable_of_removeFlag
    (h : Standing s number (.removeWalletSeed id) (.answered .removeFlag reply) started)
    (hNoSet : NoSetAfter s number id) (hLeft : Leftover s.shared id) : Restorable aliased s := by
  refine CanReach.cons (restorable_of_removed (h.ends aliased rfl)
    (hNoSet.of_calls (step_resume_calls s number .succeeds)) ?_)
  rw [h.passes aliased fun _ _ => next_removeWalletSeed]
  exact hLeft

/-- A removal that is past `secureRemove` with something left can end so, since
nothing that it still does has to clear the rest: the storage can fail to clear
the flag. -/
theorem restorable_of_secureRemove
    (h : Standing s number (.removeWalletSeed id) (.answered .secureRemove reply) started)
    (hNoSet : NoSetAfter s number id) (hLeft : Leftover s.shared id) : Restorable aliased s := by
  have hWaits := h.waits aliased rfl
  have hFailed := hWaits.answered aliased .fallsBack rfl
  refine CanReach.cons (CanReach.cons (restorable_of_removeFlag hFailed ?_ ?_))
  · exact (hNoSet.of_calls (step_resume_calls s number .succeeds)).of_calls
      (step_resume_calls _ number .fallsBack)
  · rw [hWaits.performs aliased .fallsBack]
    show Leftover (step (program aliased) s (.resume number .succeeds)).1.shared id
    rw [h.passes aliased fun _ _ => next_removeWalletSeed]
    exact hLeft

variable {other begun : Nat} {call : Call}

/-- The same if the other call waits for the storage to put it. -/
theorem restorable_of_awaiting
    (h : Standing s number (.removeWalletSeed id) (.answered .secureRemove reply) started)
    (hNoSet : NoSetAfter s number id) (hOther : other ≠ number) {operation : StorageCall}
    (hPutter : Standing s other call (.awaiting operation) begun) (hId : call.id = id)
    (hPuts : operation.Puts) : Restorable aliased s := by
  refine CanReach.cons (restorable_of_secureRemove (h.aside aliased hOther .succeeds)
    (hNoSet.of_calls (step_resume_calls s other .succeeds)) ?_)
  rw [hPutter.performs aliased .succeeds, hId]
  cases operation with
  | secureSet variant seed =>
      refine Or.inr (Or.inl ?_)
      show Function.update s.shared.slot id (some (variant, seed)) id ≠ none
      rw [Function.update_self]
      exact Option.some_ne_none _
  | setFlag seed =>
      refine Or.inr (Or.inr ?_)
      show Function.update s.shared.flag id true id = true
      rw [Function.update_self]
  | getFlag => exact hPuts.elim
  | secureGet variant => exact hPuts.elim
  | secureRemove => exact hPuts.elim
  | removeFlag => exact hPuts.elim

/-- If another call of the wallet is about to put the seed, in the cache or the
storage, the removal can end before it does. -/
theorem restorable_of_answered
    (h : Standing s number (.removeWalletSeed id) (.answered .secureRemove reply) started)
    (hNoSet : NoSetAfter s number id) (hOther : other ≠ number) {operation : StorageCall}
    {answer : Reply} (hPutter : Standing s other call (.answered operation answer) begun)
    (hId : call.id = id) (hPuts : (call.next operation answer).Puts) : Restorable aliased s := by
  have hAside := h.aside aliased hOther .succeeds
  have hNoSet' : NoSetAfter (step (program aliased) s (.resume other .succeeds)).1 number id :=
    hNoSet.of_calls (step_resume_calls s other .succeeds)
  cases hNext : call.next operation answer with
  | wait after =>
      rw [hNext] at hPuts
      exact CanReach.cons (restorable_of_awaiting hAside hNoSet' hOther
        (hPutter.waits aliased hNext) hId hPuts)
  | warm seed result =>
      refine CanReach.cons (restorable_of_secureRemove hAside hNoSet' (Or.inl ?_))
      rw [hPutter.warms aliased hNext]
      show (s.shared.sessionCache.set call.id ⟨seed, begun⟩).get id ≠ none
      rw [hId, SessionCache.get_set_self]
      exact Option.some_ne_none _
  | finish result =>
      rw [hNext] at hPuts
      exact hPuts.elim

end Restores

/-- The same for any call that carries the seed when the slot is emptied,
whichever of the two it waits for. -/
theorem restorable_of_carried {s : System Shared Flight} {number started : Nat} {id : String}
    {reply : Reply}
    (h : Standing s number (.removeWalletSeed id) (.answered .secureRemove reply) started)
    (hNoSet : NoSetAfter s number id) {other : Nat} (hOther : other ≠ number) {g : Flight}
    (hFlight : s.calls[other]? = some g) (hCarries : g.Carries id) : Restorable aliased s := by
  obtain ⟨hId, hPuts⟩ := hCarries
  have hPutter : Standing s other g.call g.stage g.started := ⟨g, hFlight, rfl, rfl, rfl⟩
  cases hStage : g.stage with
  | awaiting operation =>
      rw [hStage] at hPutter hPuts
      exact restorable_of_awaiting h hNoSet hOther hPutter hId hPuts
  | answered operation answer =>
      rw [hStage] at hPutter hPuts
      exact restorable_of_answered h hNoSet hOther hPutter hId hPuts
  | finished result =>
      rw [hStage] at hPuts
      exact hPuts.elim

/-- A removal that passes `secureRemove` uncleanly can be undone. -/
theorem restorable_of_secret {s : System Shared Flight} {number started : Nat} {id : String}
    (h : Standing s number (.removeWalletSeed id) (.awaiting .secureRemove) started)
    {outcome : Outcome} (hAnswered : outcome ≠ .throws)
    (hNoSet : NoSetAfter (step (program aliased) s (.resume number outcome)).1 number id)
    (hUnclean : ¬ ((outcome = .succeeds ∨ s.shared.slot id = none) ∧
      (∀ entry ∈ s.shared.sessionCache, entry.1 ≠ id) ∧ ∀ g ∈ s.calls, ¬ g.Carries id)) :
    Restorable aliased (step (program aliased) s (.resume number outcome)).1 := by
  have hShared := h.performs aliased outcome
  obtain ⟨reply, hReply⟩ : ∃ reply, (perform aliased s.shared id .secureRemove outcome).2 =
      some reply := by
    cases outcome with
    | throws => exact absurd rfl hAnswered
    | fallsBack => exact ⟨_, rfl⟩
    | succeeds => exact ⟨_, rfl⟩
  have hPast := h.answered aliased outcome hReply
  by_cases hCarried : ∃ g ∈ s.calls, g.Carries id
  · obtain ⟨g, hg, hCarries⟩ := hCarried
    obtain ⟨other, hFlight⟩ := List.mem_iff_getElem?.mp hg
    have hOther : other ≠ number := by
      rintro rfl
      obtain ⟨f, hOwn, _, hStage, _⟩ := h
      cases hFlight.symm.trans hOwn
      have hPuts := hCarries.2
      rw [hStage] at hPuts
      exact hPuts
    obtain ⟨k, hk, hCall, hStage, _⟩ := Standing.aside aliased
      (⟨g, hFlight, rfl, rfl, rfl⟩ : Standing s other g.call g.stage g.started) hOther.symm outcome
    refine restorable_of_carried hPast hNoSet hOther hk ?_
    unfold Flight.Carries
    rw [hCall, hStage]
    exact hCarries
  · refine restorable_of_secureRemove hPast hNoSet ?_
    rw [hShared]
    by_cases hCached : ∃ entry ∈ s.shared.sessionCache, entry.1 = id
    · obtain ⟨entry, hEntry, hId⟩ := hCached
      refine Or.inl ?_
      rw [(perform_variables aliased s.shared _ .secureRemove outcome).1]
      exact SessionCache.get_ne_none hEntry hId
    · refine Or.inr (Or.inl ?_)
      have hFilled : ¬ (outcome = .succeeds ∨ s.shared.slot id = none) := fun hEmpties =>
        hUnclean ⟨hEmpties, fun entry hEntry hId => hCached ⟨entry, hEntry, hId⟩,
          fun g hg hCarries => hCarried ⟨g, hg, hCarries⟩⟩
      cases outcome with
      | throws => exact absurd rfl hAnswered
      | fallsBack => exact fun hEmpty => hFilled (Or.inr hEmpty)
      | succeeds => exact absurd (Or.inl rfl) hFilled

/-- A removal that leaves the flag set has something left. -/
theorem restorable_of_flag {s : System Shared Flight} {number started : Nat} {id : String}
    (h : Standing s number (.removeWalletSeed id) (.awaiting .removeFlag) started)
    {outcome : Outcome} (hAnswered : outcome ≠ .throws)
    (hNoSet : NoSetAfter (step (program aliased) s (.resume number outcome)).1 number id)
    (hUnclean : ¬ (outcome = .succeeds ∨ s.shared.flag id = false)) :
    Restorable aliased (step (program aliased) s (.resume number outcome)).1 := by
  cases outcome with
  | throws => exact absurd rfl hAnswered
  | fallsBack =>
      refine restorable_of_removeFlag (h.answered aliased .fallsBack rfl) hNoSet (Or.inr (Or.inr ?_))
      rw [h.performs aliased .fallsBack]
      show s.shared.flag id = true
      rw [← Bool.not_eq_false]
      exact fun hFlag => hUnclean (Or.inr hFlag)
  | succeeds => exact absurd (Or.inl rfl) hUnclean

/-- Whichever way a removal is unclean, it can be undone: something of the
wallet is left, or is still on its way. -/
theorem restorable_of_removal (aliased : Bool) {s : System Shared Flight}
    {a : Action Call Outcome Event} (hUnclean : ¬ RemovesCleanly s a) :
    Restorable aliased (step (program aliased) s a).1 := by
  cases a with
  | start call => exact absurd trivial hUnclean
  | event e => exact absurd trivial hUnclean
  | resume number outcome =>
      simp only [RemovesCleanly, not_forall] at hUnclean
      obtain ⟨f, id, hFlight, hCall, hNoSet, hAnswered, hFails⟩ := hUnclean
      have hNoSet' : NoSetAfter (step (program aliased) s (.resume number outcome)).1 number id :=
        hNoSet.of_calls (step_resume_calls s number outcome)
      have hStands : Standing s number (.removeWalletSeed id) f.stage f.started :=
        ⟨f, hFlight, hCall, rfl, rfl⟩
      rcases Classical.not_and_iff_not_or_not.mp hFails with hSecret | hFlag
      · obtain ⟨hStage, hHeld⟩ := Classical.not_imp.mp hSecret
        rw [hStage] at hStands
        exact restorable_of_secret hStands hAnswered hNoSet' hHeld
      · obtain ⟨hStage, hKept⟩ := Classical.not_imp.mp hFlag
        rw [hStage] at hStands
        exact restorable_of_flag hStands hAnswered hNoSet' hKept

/-- In every run in which the storage empties what removals ask it to empty,
and no removal passes `secureRemove` while the seed is cached or another call
has it in hand, a removal that has resolved leaves nothing behind, unless a
`setWalletSeed` of the wallet started later. After the first step that breaks
this the run can go on until every call has ended and a resolved removal has
left something. -/
theorem removed_stays_removed (clock : Nat) (slot : String → Option (Variant × String))
    (flag : String → Bool) (as : List (Action Call Outcome Event))
    (hAlong : Along (step (program aliased)) RemovesCleanly ⟨initial clock slot flag, []⟩ as) :
    Cleared (final (step (program aliased)) ⟨initial clock slot flag, []⟩ as) ∧
      ∀ a, ¬ RemovesCleanly (final (step (program aliased)) ⟨initial clock slot flag, []⟩ as) a →
        ∃ after,
          AllFinished
            (final (step (program aliased)) ⟨initial clock slot flag, []⟩ (as ++ a :: after)) ∧
          ¬ Cleared
            (final (step (program aliased)) ⟨initial clock slot flag, []⟩ (as ++ a :: after)) := by
  refine ⟨cleared_along clock slot flag as hAlong, ?_⟩
  intro a hUnclean
  obtain ⟨after, hEnded, hRestored⟩ := restorable_of_removal aliased hUnclean
  refine ⟨after, ?_⟩
  rw [final_append]
  exact ⟨hEnded, hRestored⟩

/-- One wallet with a seed from before the authenticated layout. -/
def legacySlot : String → Option (Variant × String) :=
  fun id => if id = "w" then some (.plain, "SEED") else none

/-- A read migrates the seed while the wallet is removed. -/
def migratingRun : List (Action Call Outcome Event) :=
  [.start (.getWalletSeed "w"), .resume 0 .succeeds, .resume 0 .succeeds, .resume 0 .succeeds,
    .start (.removeWalletSeed "w"), .resume 1 .succeeds, .resume 1 .succeeds, .resume 1 .succeeds,
    .resume 1 .succeeds, .resume 0 .succeeds, .resume 0 .succeeds, .resume 0 .succeeds,
    .resume 0 .succeeds, .resume 0 .succeeds]

/-- Both calls have ended, and the seed is cached, stored and flagged again. -/
theorem migratingRun_restores :
    let s := final (step (program false)) ⟨initial 0 legacySlot (fun _ => false), []⟩ migratingRun
    s.calls.map (·.stage) = [.finished (.seed (some "SEED")), .finished .removed] ∧
      s.shared.sessionCache.get "w" = some ⟨"SEED", 0⟩ ∧
      s.shared.slot "w" = some (.authenticated, "SEED") ∧ s.shared.flag "w" = true := by
  decide

/-- A wallet is removed while it is being read and the seed of another one is
being set. The read finds nothing any more. -/
def removalRun : List (Action Call Outcome Event) :=
  [.start (.setWalletSeed "v" "OTHER"), .start (.removeWalletSeed "w"), .start (.getWalletSeed "w"),
    .resume 2 .succeeds, .resume 0 .succeeds, .resume 1 .succeeds, .resume 2 .succeeds,
    .resume 1 .succeeds, .resume 2 .succeeds, .resume 1 .succeeds, .resume 0 .succeeds,
    .resume 2 .succeeds, .resume 1 .succeeds, .resume 0 .succeeds, .resume 0 .succeeds]

/-- No removal of the sample run passes `secureRemove` while something is left.
-/
theorem removalRun_clean : Along (step (program false)) RemovesCleanly
    ⟨initial 0 legacySlot (fun _ => false), []⟩ removalRun := by
  have hOther {f g : Flight} {id : String} (hFlight : some g = some f)
      (hKind : ∀ id, g.call ≠ .removeWalletSeed id) (hCall : f.call = .removeWalletSeed id) : False := by
    cases hFlight
    exact hKind id hCall
  refine ⟨trivial, trivial, trivial, ?_, ?_, ?_, ?_, ?_, ?_, ?_, ?_, ?_, ?_, ?_, ?_, trivial⟩
  · exact fun f id hFlight hCall _ _ => (hOther hFlight (fun _ h => by cases h) hCall).elim
  · exact fun f id hFlight hCall _ _ => (hOther hFlight (fun _ h => by cases h) hCall).elim
  · -- The secret goes while one call has read the flag and one has stored the other seed.
    intro f id hFlight hCall _ _
    cases hFlight
    cases hCall
    refine ⟨fun _ => ⟨Or.inl rfl, fun entry hEntry => absurd hEntry List.not_mem_nil, ?_⟩,
      fun h => (by cases h)⟩
    intro g hg
    rcases List.mem_cons.mp hg with rfl | hg
    · exact fun h => absurd h.1 (by decide)
    rcases List.mem_cons.mp hg with rfl | hg
    · exact fun h => h.2
    rcases List.mem_cons.mp hg with rfl | hg
    · exact fun h => h.2
    · cases hg
  · exact fun f id hFlight hCall _ _ => (hOther hFlight (fun _ h => by cases h) hCall).elim
  · intro f id hFlight _ _ _
    cases hFlight
    exact ⟨fun h => (by cases h), fun h => (by cases h)⟩
  · exact fun f id hFlight hCall _ _ => (hOther hFlight (fun _ h => by cases h) hCall).elim
  · intro f id hFlight _ _ _
    cases hFlight
    exact ⟨fun h => (by cases h), fun _ => Or.inl rfl⟩
  · exact fun f id hFlight hCall _ _ => (hOther hFlight (fun _ h => by cases h) hCall).elim
  · exact fun f id hFlight hCall _ _ => (hOther hFlight (fun _ h => by cases h) hCall).elim
  · intro f id hFlight _ _ _
    cases hFlight
    exact ⟨fun h => (by cases h), fun h => (by cases h)⟩
  · exact fun f id hFlight hCall _ _ => (hOther hFlight (fun _ h => by cases h) hCall).elim
  · exact fun f id hFlight hCall _ _ => (hOther hFlight (fun _ h => by cases h) hCall).elim

/-- The read comes back with nothing and nothing of the wallet is left, while
the other seed is stored. -/
theorem removed_stays_removed_sample :
    let s := final (step (program false)) ⟨initial 0 legacySlot (fun _ => false), []⟩ removalRun
    (s.shared.sessionCache.get "w" = none ∧ s.shared.slot "w" = none ∧ s.shared.flag "w" = false) ∧
      s.calls.map (·.stage) = [.finished (.stored true), .finished .removed, .finished (.seed none)] ∧
      s.shared.slot "v" = some (.authenticated, "OTHER") := by
  intro s
  refine ⟨?_, by decide, by decide⟩
  refine (removed_stays_removed 0 legacySlot (fun _ => false) removalRun removalRun_clean).1 1 _ "w"
    rfl rfl rfl ?_
  intro later f seed hLater hFlight
  match later with
  | 0 | 1 => omega
  | 2 => cases hFlight; exact fun h => (by cases h)
  | n + 3 => cases hFlight

end SessionKeystore
