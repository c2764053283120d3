import StellarTimelock.Keystore.SessionKeystore

/-! When a removed seed stays removed. A removal empties the cache, the slot
and the flag in three steps, and a read that already has the seed in hand can
put it back after any of them. -/
namespace SessionKeystore

open Interleaving Execution

variable {aliased : Bool}

/-- A storage call that writes a seed or marks one as bound. -/
def StorageCall.Puts : StorageCall → Prop
  | .secureSet _ _ => True
  | .setFlag _ => True
  | _ => False

def Next.Puts : Next → Prop
  | .wait operation => operation.Puts
  | .warm _ _ => True
  | .finish _ => False

/-- The next thing the call does for this wallet is to put a seed somewhere. -/
def Flight.Carries (f : Flight) (id : String) : Prop :=
  f.call.id = id ∧
    match f.stage with
    | .awaiting operation => operation.Puts
    | .answered operation reply => (f.call.next operation reply).Puts
    | .finished _ => False

/-- Nothing is cached or stored for the wallet, and no call is about to. -/
structure Quiet (s : System Shared Flight) (id : String) : Prop where
  cache : ∀ entry ∈ s.shared.sessionCache, entry.1 ≠ id
  slot : s.shared.slot id = none
  calls : ∀ f ∈ s.calls, ¬ f.Carries id

/-- No `setWalletSeed` of the wallet was started after the numbered call. -/
def NoSetAfter (s : System Shared Flight) (number : Nat) (id : String) : Prop :=
  ∀ later f seed, number < later → s.calls[later]? = some f → f.call ≠ .setWalletSeed id seed

/-- Every removal that has resolved has left nothing cached, stored or flagged
for its wallet, unless a `setWalletSeed` of it started later. -/
def Cleared (s : System Shared Flight) : Prop :=
  ∀ number f id, s.calls[number]? = some f → f.call = .removeWalletSeed id →
    f.stage = .finished .removed → NoSetAfter s number id →
    s.shared.sessionCache.get id = none ∧ s.shared.slot id = none ∧ s.shared.flag id = false

/-- The removal has passed `secureRemove`. -/
def Stage.pastSecret : Stage → Bool
  | .answered .secureRemove _ => true
  | .awaiting .removeFlag => true
  | .answered .removeFlag _ => true
  | .finished .removed => true
  | _ => false

/-- The removal has passed `removeItem`. -/
def Stage.pastFlag : Stage → Bool
  | .answered .removeFlag _ => true
  | .finished .removed => true
  | _ => false

/-- The storage empties what a removal asks it to empty, and at `secureRemove`
nothing is cached for the wallet and no call has its seed in hand. Nothing is
asked of a removal that throws, or once a `setWalletSeed` came after it. -/
def RemovesCleanly (s : System Shared Flight) : Action Call Outcome Event → Prop
  | .resume number outcome => ∀ f id, s.calls[number]? = some f → f.call = .removeWalletSeed id →
      NoSetAfter s number id → outcome ≠ .throws →
      (f.stage = .awaiting .secureRemove → (outcome = .succeeds ∨ s.shared.slot id = none) ∧
        (∀ entry ∈ s.shared.sessionCache, entry.1 ≠ id) ∧ ∀ g ∈ s.calls, ¬ g.Carries id) ∧
      (f.stage = .awaiting .removeFlag → outcome = .succeeds ∨ s.shared.flag id = false)
  | _ => True

/-- What a removal has achieved at its stage. -/
def Removals (s : System Shared Flight) : Prop :=
  ∀ number f id, s.calls[number]? = some f → f.call = .removeWalletSeed id →
    NoSetAfter s number id → f.stage.pastSecret = true →
    Quiet s id ∧ (f.stage.pastFlag = true → s.shared.flag id = false)

/-! A quiet wallet stays quiet. -/

/-- Without a seed at hand, a call does not come to put one. -/
theorem next_free (call : Call) {operation : StorageCall} (hPuts : ¬ operation.Puts) {reply : Reply}
    (hSeed : ∀ variant, operation = .secureGet variant → reply = .seed "") :
    ¬ (call.next operation reply).Puts := by
  cases operation with
  | getFlag => cases call <;> cases reply <;> exact fun h => h
  | secureGet variant =>
      rw [hSeed variant rfl]
      cases call <;> cases variant <;> exact fun h => h
  | secureSet variant seed => exact absurd trivial hPuts
  | setFlag seed => exact absurd trivial hPuts
  | secureRemove => cases call <;> cases reply <;> exact fun h => h
  | removeFlag => cases call <;> cases reply <;> exact fun h => h

/-- A storage call that puts nothing leaves an empty slot empty, sets no flag
and finds no seed. -/
theorem perform_free (aliased : Bool) {s : Shared} {id : String} (hSlot : s.slot id = none)
    {operation : StorageCall} (hPuts : ¬ operation.Puts) (outcome : Outcome) :
    (perform aliased s id operation outcome).1.slot id = none ∧
      ((perform aliased s id operation outcome).1.flag id = true → s.flag id = true) ∧
      ∀ reply variant, (perform aliased s id operation outcome).2 = some reply →
        operation = .secureGet variant → reply = .seed "" := by
  cases outcome with
  | throws => exact ⟨hSlot, fun h => h, fun reply variant h _ => (by cases h)⟩
  | fallsBack =>
      cases operation with
      | secureGet variant => exact ⟨hSlot, fun h => h, fun reply _ h _ => (Option.some.inj h).symm⟩
      | getFlag => exact ⟨hSlot, fun h => h, fun reply variant _ h => (by cases h)⟩
      | secureSet variant seed => exact absurd trivial hPuts
      | setFlag seed => exact absurd trivial hPuts
      | secureRemove => exact ⟨hSlot, fun h => h, fun reply variant _ h => (by cases h)⟩
      | removeFlag => exact ⟨hSlot, fun h => h, fun reply variant _ h => (by cases h)⟩
  | succeeds =>
      cases operation with
      | secureGet variant =>
          refine ⟨hSlot, fun h => h, ?_⟩
          intro reply _ hReply _
          have hEmpty : s.secureGet aliased variant id = "" := by
            unfold Shared.secureGet
            rw [hSlot]
          rw [← Option.some.inj hReply, hEmpty]
      | getFlag => exact ⟨hSlot, fun h => h, fun reply variant _ h => (by cases h)⟩
      | secureSet variant seed => exact absurd trivial hPuts
      | setFlag seed => exact absurd trivial hPuts
      | secureRemove =>
          refine ⟨?_, fun h => h, fun reply variant _ h => (by cases h)⟩
          show Function.update s.slot id none id = none
          rw [Function.update_self]
      | removeFlag =>
          refine ⟨hSlot, ?_, fun reply variant _ h => (by cases h)⟩
          intro hFlag
          change Function.update s.flag id false id = true at hFlag
          rw [Function.update_self] at hFlag
          cases hFlag

/-- What a stretch of a call that does not carry the seed of a quiet wallet
leaves of it. -/
structure StaysFree (s : Shared) (id : String) (turn : Turn Shared Flight Notified) : Prop where
  cache : ∀ entry ∈ turn.shared.sessionCache, entry.1 ≠ id
  slot : turn.shared.slot id = none
  flag : turn.shared.flag id = true → s.flag id = true
  point : ¬ turn.point.Carries id

/-- A stretch of a call for another wallet leaves a wallet free of which nothing
is cached and nothing is stored. -/
theorem resume_elsewhere {s : Shared} {f : Flight} {id : String} (hOther : f.call.id ≠ id)
    (hCache : ∀ entry ∈ s.sessionCache, entry.1 ≠ id) (hSlot : s.slot id = none)
    (outcome : Outcome) : StaysFree s id (resume aliased s f outcome) := by
  unfold resume
  split
  · next operation _ =>
      obtain ⟨hSameSlot, hSameFlag⟩ := perform_elsewhere aliased s hOther.symm operation outcome
      have hSame := (perform_variables aliased s f.call.id operation outcome).1
      simp only
      split
      · exact ⟨hSame ▸ hCache, hSameSlot.trans hSlot, fun h => hSameFlag ▸ h, fun h => hOther h.1⟩
      · exact ⟨hSame ▸ hCache, hSameSlot.trans hSlot, fun h => hSameFlag ▸ h, fun h => hOther h.1⟩
  · next operation reply _ =>
      unfold proceed
      split
      · exact ⟨hCache, hSlot, fun h => h, fun h => hOther h.1⟩
      · refine ⟨?_, hSlot, fun h => h, fun h => hOther h.1⟩
        intro entry hEntry
        rcases SessionCache.mem_set.mp hEntry with rfl | ⟨hOld, _⟩
        · exact hOther
        · exact hCache entry hOld
      · exact ⟨hCache, hSlot, fun h => h, fun h => hOther h.1⟩
  · exact ⟨hCache, hSlot, fun h => h, fun h => hOther h.1⟩

/-- A call for the wallet that has no seed in hand. -/
theorem resume_free {s : Shared} {f : Flight} {id : String} (hId : f.call.id = id)
    (hCache : ∀ entry ∈ s.sessionCache, entry.1 ≠ id) (hSlot : s.slot id = none)
    (hCarries : ¬ f.Carries id) (outcome : Outcome) :
    StaysFree s id (resume aliased s f outcome) := by
  subst hId
  unfold resume
  split
  · next operation hStage =>
      have hPuts : ¬ operation.Puts := by
        intro h
        refine hCarries ⟨rfl, ?_⟩
        rw [hStage]
        exact h
      obtain ⟨hEmpty, hFlag, hSeed⟩ := perform_free aliased hSlot hPuts outcome
      have hSame := (perform_variables aliased s f.call.id operation outcome).1
      simp only
      split
      · next reply hReply =>
          exact ⟨hSame ▸ hCache, hEmpty, hFlag,
            fun h => next_free f.call hPuts (fun variant => hSeed reply variant hReply) h.2⟩
      · exact ⟨hSame ▸ hCache, hEmpty, hFlag, fun h => h.2⟩
  · next operation reply hStage =>
      have hPuts : ¬ (f.call.next operation reply).Puts := by
        intro h
        refine hCarries ⟨rfl, ?_⟩
        rw [hStage]
        exact h
      unfold proceed
      split
      · next after hNext =>
          rw [hNext] at hPuts
          exact ⟨hCache, hSlot, fun h => h, fun h => hPuts h.2⟩
      · next seed result hNext =>
          rw [hNext] at hPuts
          exact absurd trivial hPuts
      · exact ⟨hCache, hSlot, fun h => h, fun h => h.2⟩
  · exact ⟨hCache, hSlot, fun h => h, hCarries⟩

/-- One stretch keeps a wallet quiet, unless its call carries the seed. -/
theorem Quiet.resume {s : System Shared Flight} {id : String} (h : Quiet s id) {f : Flight}
    (hf : ¬ f.Carries id) (outcome : Outcome) :
    StaysFree s.shared id (SessionKeystore.resume aliased s.shared f outcome) := by
  by_cases hId : f.call.id = id
  · exact resume_free hId h.cache h.slot hf outcome
  · exact resume_elsewhere hId h.cache h.slot outcome

theorem start_free {s : Shared} {id : String} (hCache : ∀ entry ∈ s.sessionCache, entry.1 ≠ id)
    (hSlot : s.slot id = none) {call : Call} (hSet : ∀ seed, call ≠ .setWalletSeed id seed) :
    StaysFree s id (start s call) := by
  cases call with
  | getWalletSeed other =>
      simp only [start]
      split
      · exact ⟨hCache, hSlot, fun h => h, fun h => h.2⟩
      · exact ⟨hCache, hSlot, fun h => h, fun h => h.2⟩
  | setWalletSeed other seed =>
      refine ⟨hCache, hSlot, fun h => h, ?_⟩
      intro h
      have hOther : other = id := h.1
      exact hSet seed (congrArg (Call.setWalletSeed · seed) hOther)
  | removeWalletSeed other =>
      exact ⟨fun entry hEntry => hCache entry (SessionCache.mem_delete.mp hEntry).1, hSlot,
        fun h => h, fun h => h.2⟩

/-- A step keeps a wallet quiet and sets no flag, unless a `setWalletSeed` of
the wallet is started. -/
theorem Quiet.step (aliased : Bool) {s : System Shared Flight} {id : String} (h : Quiet s id)
    {a : Action Call Outcome Event}
    (hSet : ∀ seed, a ≠ .start (.setWalletSeed id seed)) :
    Quiet (Interleaving.step (program aliased) s a).1 id ∧
      ((Interleaving.step (program aliased) s a).1.shared.flag id = true →
        s.shared.flag id = true) := by
  cases a with
  | start call =>
      have hFree : StaysFree s.shared id (start s.shared call) :=
        start_free h.cache h.slot fun seed hCall => hSet seed (congrArg Action.start hCall)
      refine ⟨⟨hFree.cache, hFree.slot, ?_⟩, hFree.flag⟩
      intro f hf
      rcases List.mem_append.mp hf with hOld | hNew
      · exact h.calls f hOld
      · rw [List.mem_singleton.mp hNew]
        exact hFree.point
  | resume number outcome =>
      cases hFlight : s.calls[number]? with
      | none =>
          rw [step_resume_none hFlight]
          exact ⟨h, fun hFlag => hFlag⟩
      | some f =>
          rw [step_resume_some hFlight]
          have hFree : StaysFree s.shared id (SessionKeystore.resume aliased s.shared f outcome) :=
            h.resume (h.calls f (List.mem_of_getElem? hFlight)) outcome
          refine ⟨⟨hFree.cache, hFree.slot, ?_⟩, hFree.flag⟩
          intro g hg
          rcases List.mem_or_eq_of_mem_set hg with hOld | hNew
          · exact h.calls g hOld
          · rw [hNew]
            exact hFree.point
  | event e =>
      obtain ⟨hSlot, hFlag, hCache⟩ := event_free s.shared e
      refine ⟨⟨fun entry hEntry => h.cache entry (hCache entry hEntry), ?_, h.calls⟩, ?_⟩
      · show (event s.shared e).1.slot id = none
        rw [hSlot]
        exact h.slot
      · show (event s.shared e).1.flag id = true → _
        rw [hFlag]
        exact fun hOld => hOld

/-! Every step keeps what removals have achieved. -/

/-- A call that a step leaves was there before, with the same arguments, or is
the one that the step starts. -/
theorem step_calls (aliased : Bool) (s : System Shared Flight) (a : Action Call Outcome Event)
    {number : Nat} {f : Flight} (h : s.calls[number]? = some f) :
    ∃ g, (Interleaving.step (program aliased) s a).1.calls[number]? = some g ∧
      g.call = f.call := by
  have hBound : number < s.calls.length := (List.getElem?_eq_some_iff.mp h).1
  cases a with
  | start call =>
      refine ⟨f, ?_, rfl⟩
      show (s.calls ++ _)[number]? = some f
      rw [List.getElem?_append_left hBound]
      exact h
  | resume other outcome =>
      cases hFlight : s.calls[other]? with
      | none =>
          rw [step_resume_none hFlight]
          exact ⟨f, h, rfl⟩
      | some k =>
          rw [step_resume_some hFlight]
          show ∃ g, (s.calls.set other (SessionKeystore.resume aliased s.shared k outcome).point)[number]? =
            some g ∧ g.call = f.call
          by_cases hSame : other = number
          · subst hSame
            cases hFlight.symm.trans h
            exact ⟨_, List.getElem?_set_self hBound, resume_call aliased s.shared f outcome⟩
          · rw [List.getElem?_set_ne hSame]
            exact ⟨f, h, rfl⟩
  | event e => exact ⟨f, h, rfl⟩

theorem NoSetAfter.before {s : System Shared Flight} {a : Action Call Outcome Event} {number : Nat}
    {id : String} (h : NoSetAfter (Interleaving.step (program aliased) s a).1 number id) :
    NoSetAfter s number id := by
  intro later f seed hLater hFlight
  obtain ⟨g, hg, hCall⟩ := step_calls aliased s a hFlight
  rw [← hCall]
  exact h later g seed hLater hg

/-- A removal is past `secureRemove`, or past clearing the flag, only when the
storage has answered this very step of it without throwing. -/
theorem removal_passes (aliased : Bool) (s : Shared) {f : Flight} {id : String}
    (hCall : f.call = .removeWalletSeed id) (outcome : Outcome) :
    ((resume aliased s f outcome).point.stage.pastSecret = true → f.stage.pastSecret = true ∨
      f.stage = .awaiting .secureRemove ∧ outcome ≠ .throws) ∧
    ((resume aliased s f outcome).point.stage.pastFlag = true → f.stage.pastFlag = true ∨
      f.stage = .awaiting .removeFlag ∧ outcome ≠ .throws) := by
  cases hStage : f.stage with
  | awaiting operation =>
      rcases resume_awaiting aliased s hStage outcome with hRejected | ⟨hAnswered, reply, hReply⟩
      · rw [hRejected]
        exact ⟨fun h => (by cases h), fun h => (by cases h)⟩
      · rw [hReply]
        cases operation with
        | secureRemove => exact ⟨fun _ => Or.inr ⟨rfl, hAnswered⟩, fun h => (by cases h)⟩
        | removeFlag => exact ⟨fun _ => Or.inl rfl, fun _ => Or.inr ⟨rfl, hAnswered⟩⟩
        | getFlag => exact ⟨fun h => (by cases h), fun h => (by cases h)⟩
        | secureGet variant => exact ⟨fun h => (by cases h), fun h => (by cases h)⟩
        | secureSet variant seed => exact ⟨fun h => (by cases h), fun h => (by cases h)⟩
        | setFlag seed => exact ⟨fun h => (by cases h), fun h => (by cases h)⟩
  | answered operation reply =>
      unfold resume proceed
      rw [hStage, hCall]
      cases operation with
      | secureRemove => exact ⟨fun _ => Or.inl rfl, fun h => (by cases h)⟩
      | removeFlag => exact ⟨fun _ => Or.inl rfl, fun _ => Or.inl rfl⟩
      | getFlag => exact ⟨fun h => (by cases h), fun h => (by cases h)⟩
      | secureGet variant =>
          cases variant <;> exact ⟨fun h => (by cases h), fun h => (by cases h)⟩
      | secureSet variant seed =>
          cases variant <;> exact ⟨fun h => (by cases h), fun h => (by cases h)⟩
      | setFlag seed => exact ⟨fun h => (by cases h), fun h => (by cases h)⟩
  | finished result =>
      unfold resume
      rw [hStage]
      exact ⟨fun h => Or.inl (hStage ▸ h), fun h => Or.inl (hStage ▸ h)⟩

/-- The stretch that empties the slot leaves a quiet wallet. -/
theorem quiet_of_secureRemove {s : System Shared Flight} {number : Nat} {f : Flight} {id : String}
    (hFlight : s.calls[number]? = some f) (hCall : f.call = .removeWalletSeed id)
    (hStage : f.stage = .awaiting .secureRemove) {outcome : Outcome} (hAnswered : outcome ≠ .throws)
    (hEmpties : outcome = .succeeds ∨ s.shared.slot id = none)
    (hCache : ∀ entry ∈ s.shared.sessionCache, entry.1 ≠ id)
    (hCalls : ∀ g ∈ s.calls, ¬ g.Carries id) :
    Quiet (Interleaving.step (program aliased) s (.resume number outcome)).1 id := by
  obtain ⟨call, wasLocked, started, stage⟩ := f
  cases hCall
  cases hStage
  rw [step_resume_some hFlight]
  have hKept (g : Flight) (hNew : ¬ g.Carries id) :
      ∀ l ∈ s.calls.set number g, ¬ l.Carries id := by
    intro l hl
    rcases List.mem_or_eq_of_mem_set hl with hOld | hSame
    · exact hCalls l hOld
    · rw [hSame]
      exact hNew
  cases outcome with
  | throws => exact absurd rfl hAnswered
  | fallsBack =>
      have hEmpty : s.shared.slot id = none := hEmpties.resolve_left (by decide)
      exact ⟨hCache, hEmpty, hKept _ fun h => h.2⟩
  | succeeds =>
      refine ⟨hCache, ?_, hKept _ fun h => h.2⟩
      show Function.update s.shared.slot id none id = none
      rw [Function.update_self]

/-- The stretch of a removal that clears the flag leaves it cleared, if the
storage does what it is asked to, or the flag was never set. -/
theorem unflagged_of_removeFlag {s : Shared} {f : Flight} {id : String}
    (hCall : f.call = .removeWalletSeed id) (hStage : f.stage = .awaiting .removeFlag)
    {outcome : Outcome} (hAnswered : outcome ≠ .throws)
    (hClears : outcome = .succeeds ∨ s.flag id = false) :
    (resume aliased s f outcome).shared.flag id = false := by
  obtain ⟨call, wasLocked, started, stage⟩ := f
  cases hCall
  cases hStage
  cases outcome with
  | throws => exact absurd rfl hAnswered
  | fallsBack => exact hClears.resolve_left (by decide)
  | succeeds => exact Function.update_self id false s.flag

theorem Removals.step {s : System Shared Flight} (h : Removals s) {a : Action Call Outcome Event}
    (hStep : RemovesCleanly s a) : Removals (Interleaving.step (program aliased) s a).1 := by
  intro number f id hFlight hCall hNoSet hPast
  have hNoSetBefore := hNoSet.before
  -- A removal that the step leaves where it is.
  have hKept (hSame : s.calls[number]? = some f) (hSet : ∀ seed, a ≠ .start (.setWalletSeed id seed)) :
      Quiet (Interleaving.step (program aliased) s a).1 id ∧ (f.stage.pastFlag = true →
        (Interleaving.step (program aliased) s a).1.shared.flag id = false) := by
    obtain ⟨hQuiet, hFlag⟩ := h number f id hSame hCall hNoSetBefore hPast
    obtain ⟨hQuiet', hFlag'⟩ := hQuiet.step aliased hSet
    refine ⟨hQuiet', fun hPastFlag => ?_⟩
    rw [Bool.eq_false_iff]
    exact fun hTrue => Bool.eq_false_iff.mp (hFlag hPastFlag) (hFlag' hTrue)
  cases a with
  | start call =>
      change (s.calls ++ [(start s.shared call).point])[number]? = some f at hFlight
      rcases Nat.lt_or_ge number s.calls.length with hOld | hNew
      · rw [List.getElem?_append_left hOld] at hFlight
        refine hKept hFlight ?_
        intro seed hSet
        have hLast : (Interleaving.step (program aliased) s (.start call)).1.calls[s.calls.length]? =
            some (start s.shared call).point := List.getElem?_concat_length
        refine hNoSet s.calls.length _ seed hOld hLast ?_
        rw [start_call]
        exact Action.start.inj hSet
      · rw [List.getElem?_append_right hNew] at hFlight
        have hPoint := List.mem_singleton.mp (List.mem_of_getElem? hFlight)
        rw [hPoint, start_call] at hCall
        rw [hPoint, hCall] at hPast
        cases hPast
  | resume other outcome =>
      cases hOther : s.calls[other]? with
      | none =>
          rw [step_resume_none hOther] at hFlight
          exact hKept hFlight (fun seed hSet => (by cases hSet))
      | some g =>
          have hBound : other < s.calls.length := (List.getElem?_eq_some_iff.mp hOther).1
          by_cases hSame : other = number
          · subst hSame
            rw [step_resume_some hOther] at hFlight
            change (s.calls.set other (SessionKeystore.resume aliased s.shared g outcome).point)[other]? =
              some f at hFlight
            rw [List.getElem?_set_self hBound] at hFlight
            cases hFlight
            rw [resume_call] at hCall
            obtain ⟨hSecret, hFlagged⟩ := removal_passes aliased s.shared hCall outcome
            have hClean := hStep g id hOther hCall hNoSetBefore
            rcases hSecret hPast with hOld | ⟨hStage, hAnswered⟩
            · obtain ⟨hQuiet, hFlag⟩ := h other g id hOther hCall hNoSetBefore hOld
              obtain ⟨hQuiet', hFlag'⟩ := hQuiet.step aliased
                (a := .resume other outcome) (fun seed hSet => (by cases hSet))
              refine ⟨hQuiet', fun hPastFlag => ?_⟩
              rcases hFlagged hPastFlag with hOldFlag | ⟨hStage, hAnswered⟩
              · rw [Bool.eq_false_iff]
                exact fun hTrue => Bool.eq_false_iff.mp (hFlag hOldFlag) (hFlag' hTrue)
              · rw [step_resume_some hOther]
                exact unflagged_of_removeFlag hCall hStage hAnswered
                  ((hClean hAnswered).2 hStage)
            · obtain ⟨hEmpties, hCache, hCalls⟩ := (hClean hAnswered).1 hStage
              refine ⟨quiet_of_secureRemove hOther hCall hStage hAnswered hEmpties hCache hCalls,
                fun hPastFlag => ?_⟩
              rcases hFlagged hPastFlag with hOldFlag | ⟨hElse, _⟩
              · rw [hStage] at hOldFlag
                cases hOldFlag
              · cases hStage.symm.trans hElse
          · rw [step_resume_some hOther] at hFlight
            change (s.calls.set other _)[number]? = some f at hFlight
            rw [List.getElem?_set_ne hSame] at hFlight
            exact hKept hFlight (fun seed hSet => (by cases hSet))
  | event e => exact hKept hFlight (fun seed hSet => (by cases hSet))

theorem cleared_along (clock : Nat) (slot : String → Option (Variant × String))
    (flag : String → Bool) (as : List (Action Call Outcome Event))
    (hAlong : Along (step (program aliased)) RemovesCleanly ⟨initial clock slot flag, []⟩ as) :
    Cleared (final (step (program aliased)) ⟨initial clock slot flag, []⟩ as) := by
  intro number f id hFlight hCall hResolved hNoSet
  have hRemovals : Removals (final (step (program aliased)) ⟨initial clock slot flag, []⟩ as) :=
    history_invariant_along (step (program aliased)) (fun _ s => Removals s)
      (fun _ _ _ h => by cases h) (fun _ _ _ h hStep => h.step hStep) as hAlong
  obtain ⟨hQuiet, hFlag⟩ := hRemovals number f id hFlight hCall hNoSet (by rw [hResolved]; rfl)
  refine ⟨?_, hQuiet.slot, hFlag (by rw [hResolved]; rfl)⟩
  rw [Option.eq_none_iff_forall_ne_some]
  intro entry hEntry
  exact hQuiet.cache _ (SessionCache.mem_of_get hEntry) rfl

end SessionKeystore
