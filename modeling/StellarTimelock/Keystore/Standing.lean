import StellarTimelock.Keystore.SessionKeystore

/-! Calls that are driven on: where a call stands, and where one more step of
it or of another call leaves it. -/
namespace SessionKeystore

open Interleaving

variable {aliased : Bool}

theorem resume_started (aliased : Bool) (s : Shared) (f : Flight) (outcome : Outcome) :
    (resume aliased s f outcome).point.started = f.started := by
  unfold resume
  split
  · simp only
    split <;> rfl
  · unfold proceed
    split <;> rfl
  · rfl

theorem resume_locks (aliased : Bool) (s : Shared) (f : Flight) (outcome : Outcome) :
    (resume aliased s f outcome).shared.locks = s.locks := by
  unfold resume
  split
  · next operation _ =>
      have hLocks := (perform_variables aliased s f.call.id operation outcome).2
      simp only
      split <;> exact hLocks
  · unfold proceed
    split <;> rfl
  · rfl

/-- So no step of a call locks the session. Only the lock itself does. -/
theorem step_resume_locks (s : System Shared Flight) (number : Nat) (outcome : Outcome) :
    (step (program aliased) s (.resume number outcome)).1.shared.locks = s.shared.locks := by
  cases hFlight : s.calls[number]? with
  | none => rw [step_resume_none hFlight]
  | some f =>
      rw [step_resume_some hFlight]
      exact resume_locks aliased s.shared f outcome

/-- The numbered call has come to this stage, and started after so many locks. -/
def Standing (s : System Shared Flight) (number : Nat) (call : Call) (stage : Stage)
    (started : Nat) : Prop :=
  ∃ f, s.calls[number]? = some f ∧ f.call = call ∧ f.stage = stage ∧ f.started = started

namespace Standing

variable (aliased) {s : System Shared Flight} {number started : Nat} {call : Call}

/-- A call that stands somewhere is one of the calls of the system. -/
theorem lt {stage : Stage} (h : Standing s number call stage started) :
    number < s.calls.length := by
  obtain ⟨f, hFlight, _⟩ := h
  exact (List.getElem?_eq_some_iff.mp hFlight).1

/-- When a standing call is resumed it stands where its stretch leads. -/
theorem resume {stage after : Stage} (h : Standing s number call stage started)
    (outcome : Outcome) (hAfter : ∀ f : Flight, f.call = call → f.stage = stage →
      (SessionKeystore.resume aliased s.shared f outcome).point.stage = after) :
    Standing (step (program aliased) s (.resume number outcome)).1 number call after started := by
  obtain ⟨f, hFlight, hCall, hStage, hStarted⟩ := h
  rw [step_resume_some hFlight]
  exact ⟨(SessionKeystore.resume aliased s.shared f outcome).point,
    List.getElem?_set_self (List.getElem?_eq_some_iff.mp hFlight).1,
    (resume_call aliased s.shared f outcome).trans hCall, hAfter f hCall hStage,
    (resume_started aliased s.shared f outcome).trans hStarted⟩

/-- A call whose next stretch is another storage operation waits for this
operation. -/
theorem waits {operation after : StorageCall} {reply : Reply}
    (h : Standing s number call (.answered operation reply) started)
    (hNext : call.next operation reply = .wait after) :
    Standing (step (program aliased) s (.resume number .succeeds)).1 number call
      (.awaiting after) started := by
  refine h.resume aliased .succeeds ?_
  intro f hCall hStage
  unfold SessionKeystore.resume proceed
  rw [hStage, hCall]
  simp only [hNext]
  rfl

/-- A call that waits for an operation which replies has its reply. -/
theorem answered {operation : StorageCall}
    (h : Standing s number call (.awaiting operation) started) (outcome : Outcome) {reply : Reply}
    (hReply : (perform aliased s.shared call.id operation outcome).2 = some reply) :
    Standing (step (program aliased) s (.resume number outcome)).1 number call
      (.answered operation reply) started := by
  refine h.resume aliased outcome ?_
  intro f hCall hStage
  unfold SessionKeystore.resume
  rw [hStage, hCall]
  simp only [hReply]

/-- Between its answers the shared variables stay, unless it caches a seed. -/
theorem passes {operation : StorageCall} {reply : Reply}
    (h : Standing s number call (.answered operation reply) started)
    (hNext : ∀ seed result, call.next operation reply ≠ .warm seed result) :
    (step (program aliased) s (.resume number .succeeds)).1.shared = s.shared := by
  obtain ⟨f, hFlight, rfl, hStage, _⟩ := h
  rw [step_resume_some hFlight]
  show (SessionKeystore.resume aliased s.shared f .succeeds).shared = s.shared
  unfold SessionKeystore.resume proceed
  rw [hStage]
  simp only
  split
  · rfl
  · next seed result hWarm => exact absurd hWarm (hNext seed result)
  · rfl

/-- A call whose answer makes it cache a seed puts it there in its next stretch,
under its own id and with the lock count that it started with. -/
theorem warms {operation : StorageCall} {reply : Reply} {seed : String} {result : Result}
    (h : Standing s number call (.answered operation reply) started)
    (hNext : call.next operation reply = .warm seed result) :
    (step (program aliased) s (.resume number .succeeds)).1.shared.sessionCache =
      s.shared.sessionCache.set call.id ⟨seed, started⟩ := by
  obtain ⟨f, hFlight, rfl, hStage, rfl⟩ := h
  rw [step_resume_some hFlight]
  show (SessionKeystore.resume aliased s.shared f .succeeds).shared.sessionCache = _
  unfold SessionKeystore.resume proceed
  rw [hStage]
  simp only [hNext]
  rfl

/-- A call whose answer ends it has finished after its next stretch. -/
theorem ends {operation : StorageCall} {reply : Reply} {result : Result}
    (h : Standing s number call (.answered operation reply) started)
    (hNext : call.next operation reply = .finish result) :
    Standing (step (program aliased) s (.resume number .succeeds)).1 number call
      (.finished result) started := by
  refine h.resume aliased .succeeds ?_
  intro f hCall hStage
  unfold SessionKeystore.resume proceed
  rw [hStage, hCall]
  simp only [hNext]
  rfl

/-- A call that starts leaves every standing one where it is. -/
theorem start {stage : Stage} (h : Standing s number call stage started) (other : Call) :
    Standing (step (program aliased) s (.start other)).1 number call stage started := by
  obtain ⟨f, hFlight, hRest⟩ := h
  refine ⟨f, ?_, hRest⟩
  show (s.calls ++ _)[number]? = some f
  rw [List.getElem?_append_left (List.getElem?_eq_some_iff.mp hFlight).1]
  exact hFlight

/-- Resuming another call leaves a standing call where it stands. -/
theorem aside {stage : Stage} (h : Standing s number call stage started) {other : Nat}
    (hOther : other ≠ number) (outcome : Outcome) :
    Standing (step (program aliased) s (.resume other outcome)).1 number call stage started := by
  obtain ⟨f, hFlight, hRest⟩ := h
  refine ⟨f, ?_, hRest⟩
  cases hElse : s.calls[other]? with
  | none =>
      rw [step_resume_none hElse]
      exact hFlight
  | some g =>
      rw [step_resume_some hElse]
      exact (List.getElem?_set_ne hOther).trans hFlight

/-- A call that waits for a storage operation has, when it is resumed, the
effect of this operation on the shared state and no other. -/
theorem performs {operation : StorageCall}
    (h : Standing s number call (.awaiting operation) started) (outcome : Outcome) :
    (step (program aliased) s (.resume number outcome)).1.shared =
      (perform aliased s.shared call.id operation outcome).1 := by
  obtain ⟨f, hFlight, hCall, hStage, _⟩ := h
  rw [step_resume_some hFlight]
  show (SessionKeystore.resume aliased s.shared f outcome).shared = _
  unfold SessionKeystore.resume
  rw [hStage, hCall]
  simp only
  split <;> rfl

end Standing

end SessionKeystore
