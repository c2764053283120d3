import StellarTimelock.Semantics.Execution
import Mathlib.Tactic.SplitIfs

/-! Cooperative concurrency: any number of calls over shared variables, each
running undisturbed from one suspension point to the next, and events that
change the variables in between. The scheduler's choices are the actions. -/
namespace Interleaving

universe u

variable {Shared Local Call Answer Event Observation : Type u}

/-- What an undisturbed stretch of a call leaves: the shared variables, the
point where the call is suspended next and what was observed. -/
structure Turn (Shared Local Observation : Type u) where
  shared : Shared
  point : Local
  observation : Observation

/-- The code of the calls and of the events. A stretch that resumes a call is
given the answer to what the call was waiting for. -/
structure Program (Shared Local Call Answer Event Observation : Type u) where
  start : Shared → Call → Turn Shared Local Observation
  resume : Shared → Local → Answer → Turn Shared Local Observation
  event : Shared → Event → Shared × Observation

/-- The shared variables and the suspension point of every call so far. -/
structure System (Shared Local : Type u) where
  shared : Shared
  calls : List Local

inductive Action (Call Answer Event : Type u) where
  | start (call : Call)
  | resume (number : Nat) (answer : Answer)
  | event (e : Event)

variable (P : Program Shared Local Call Answer Event Observation)

/-- One stretch. Resuming a call that does not exist does nothing. -/
def step (s : System Shared Local) :
    Action Call Answer Event → System Shared Local × Option Observation
  | .start call =>
      let turn := P.start s.shared call
      ({ shared := turn.shared, calls := s.calls ++ [turn.point] }, some turn.observation)
  | .resume number answer =>
      match s.calls[number]? with
      | none => (s, none)
      | some point =>
          let turn := P.resume s.shared point answer
          ({ shared := turn.shared, calls := s.calls.set number turn.point },
            some turn.observation)
  | .event e =>
      let after := P.event s.shared e
      ({ s with shared := after.1 }, some after.2)

/-- The obligations of a proof by local assertions: `J` of the shared variables
and `A` of every suspended call, both with the history so far. The stretch of
one call establishes its next assertion and keeps those of all others. -/
structure Outline (admissible : System Shared Local → Action Call Answer Event → Prop)
    (J : List (Option Observation) → Shared → Prop)
    (A : List (Option Observation) → Shared → Local → Prop) : Prop where
  start : ∀ past s call, J past s.shared → (∀ l ∈ s.calls, A past s.shared l) →
    admissible s (.start call) →
    J (past ++ [some (P.start s.shared call).observation]) (P.start s.shared call).shared ∧
    A (past ++ [some (P.start s.shared call).observation]) (P.start s.shared call).shared
      (P.start s.shared call).point ∧
    ∀ l ∈ s.calls, A (past ++ [some (P.start s.shared call).observation])
      (P.start s.shared call).shared l
  resume : ∀ past s number point answer, J past s.shared → (∀ l ∈ s.calls, A past s.shared l) →
    s.calls[number]? = some point → admissible s (.resume number answer) →
    J (past ++ [some (P.resume s.shared point answer).observation])
      (P.resume s.shared point answer).shared ∧
    A (past ++ [some (P.resume s.shared point answer).observation])
      (P.resume s.shared point answer).shared (P.resume s.shared point answer).point ∧
    ∀ other l, other ≠ number → s.calls[other]? = some l →
      A (past ++ [some (P.resume s.shared point answer).observation])
        (P.resume s.shared point answer).shared l
  event : ∀ past s e, J past s.shared → (∀ l ∈ s.calls, A past s.shared l) →
    admissible s (.event e) →
    J (past ++ [some (P.event s.shared e).2]) (P.event s.shared e).1 ∧
    ∀ l ∈ s.calls, A (past ++ [some (P.event s.shared e).2]) (P.event s.shared e).1 l
  idle : ∀ past s, J past s → J (past ++ [none]) s ∧
    ∀ l, A past s l → A (past ++ [none]) s l

variable {P}

theorem step_resume_none {s : System Shared Local} {number : Nat} (h : s.calls[number]? = none)
    (answer : Answer) : step P s (.resume number answer) = (s, none) := by
  simp only [step, h]

/-- Resuming a call that does exist runs its next stretch on the shared state
and puts the call where the stretch leads. -/
theorem step_resume_some {s : System Shared Local} {number : Nat} {point : Local}
    (h : s.calls[number]? = some point) (answer : Answer) :
    step P s (.resume number answer) =
      ({ shared := (P.resume s.shared point answer).shared
         calls := s.calls.set number (P.resume s.shared point answer).point },
        some (P.resume s.shared point answer).observation) := by
  simp only [step, h]

/-- One step of any interleaving keeps every assertion. -/
theorem Outline.step {admissible : System Shared Local → Action Call Answer Event → Prop}
    {J : List (Option Observation) → Shared → Prop}
    {A : List (Option Observation) → Shared → Local → Prop} (h : Outline P admissible J A)
    (past : List (Option Observation)) (s : System Shared Local) (a : Action Call Answer Event)
    (hJ : J past s.shared) (hA : ∀ l ∈ s.calls, A past s.shared l) (hStep : admissible s a) :
    J (past ++ [(Interleaving.step P s a).2]) (Interleaving.step P s a).1.shared ∧
      ∀ l ∈ (Interleaving.step P s a).1.calls,
        A (past ++ [(Interleaving.step P s a).2]) (Interleaving.step P s a).1.shared l := by
  cases a with
  | start call =>
      obtain ⟨hShared, hOwn, hOthers⟩ := h.start past s call hJ hA hStep
      refine ⟨hShared, ?_⟩
      intro l hl
      rcases List.mem_append.mp hl with hOld | hNew
      · exact hOthers l hOld
      · rw [List.mem_singleton.mp hNew]
        exact hOwn
  | resume number answer =>
      cases hPoint : s.calls[number]? with
      | none =>
          rw [step_resume_none hPoint]
          obtain ⟨hShared, hKept⟩ := h.idle past s.shared hJ
          exact ⟨hShared, fun l hl => hKept l (hA l hl)⟩
      | some point =>
          rw [step_resume_some hPoint]
          obtain ⟨hShared, hOwn, hOthers⟩ := h.resume past s number point answer hJ hA hPoint hStep
          refine ⟨hShared, ?_⟩
          intro l hl
          obtain ⟨other, hOther⟩ := List.mem_iff_getElem?.mp hl
          rw [List.getElem?_set] at hOther
          split_ifs at hOther with hSame hBound
          · cases hOther
            exact hOwn
          · exact hOthers other l (fun hEq => hSame hEq.symm) hOther
  | event e => exact h.event past s e hJ hA hStep

/-- The rule: what holds of the initial variables holds, with every call's
assertion, after every interleaving of admissible steps. -/
theorem Outline.along {admissible : System Shared Local → Action Call Answer Event → Prop}
    {J : List (Option Observation) → Shared → Prop}
    {A : List (Option Observation) → Shared → Local → Prop} (h : Outline P admissible J A)
    {initial : Shared} (hInitial : J [] initial) (as : List (Action Call Answer Event))
    (hAlong : Execution.Along (Interleaving.step P) admissible ⟨initial, []⟩ as) :
    J (Execution.trace (Interleaving.step P) ⟨initial, []⟩ as)
        (Execution.final (Interleaving.step P) ⟨initial, []⟩ as).shared ∧
      ∀ l ∈ (Execution.final (Interleaving.step P) ⟨initial, []⟩ as).calls,
        A (Execution.trace (Interleaving.step P) ⟨initial, []⟩ as)
          (Execution.final (Interleaving.step P) ⟨initial, []⟩ as).shared l :=
  Execution.history_invariant_along (Interleaving.step P)
    (fun past s => J past s.shared ∧ ∀ l ∈ s.calls, A past s.shared l)
    ⟨hInitial, fun _ hl => absurd hl List.not_mem_nil⟩
    (fun past s a hHolds hStep => h.step past s a hHolds.1 hHolds.2 hStep) as hAlong

/-- How often a call is resumed. -/
def resumes (number : Nat) : List (Action Call Answer Event) → Nat
  | [] => 0
  | .resume other _ :: as => (if other = number then 1 else 0) + resumes number as
  | .start _ :: as => resumes number as
  | .event _ :: as => resumes number as

/-- What the other calls do does not delay a call: a measure that every resumed
stretch takes at least one off is used up by as many of them. -/
theorem measure_resumes {good : Local → Prop} {left : Local → Nat}
    (hKeep : ∀ shared point answer, good point → good (P.resume shared point answer).point)
    (hLess : ∀ shared point answer, good point →
      left (P.resume shared point answer).point ≤ left point - 1)
    {s : System Shared Local} {number : Nat} {point : Local} (hPoint : s.calls[number]? = some point)
    (hGood : good point) (as : List (Action Call Answer Event)) :
    ∃ after, (Execution.final (step P) s as).calls[number]? = some after ∧ good after ∧
      left after ≤ left point - resumes number as := by
  induction as generalizing s point with
  | nil => exact ⟨point, hPoint, hGood, Nat.le_of_eq (Nat.sub_zero _).symm⟩
  | cons a as ih =>
      have hBound : number < s.calls.length := (List.getElem?_eq_some_iff.mp hPoint).1
      cases a with
      | start call =>
          refine ih ?_ hGood
          show (s.calls ++ [(P.start s.shared call).point])[number]? = some point
          rw [List.getElem?_append_left hBound, hPoint]
      | event e => exact ih hPoint hGood
      | resume other answer =>
          by_cases hSame : other = number
          · subst hSame
            have hStep : (step P s (.resume other answer)).1.calls[other]? =
                some (P.resume s.shared point answer).point := by
              rw [step_resume_some hPoint]
              exact List.getElem?_set_self hBound
            obtain ⟨after, hAfter, hKept, hLeft⟩ := ih hStep (hKeep s.shared point answer hGood)
            refine ⟨after, hAfter, hKept, ?_⟩
            have hOne := hLess s.shared point answer hGood
            simp only [resumes, if_true]
            omega
          · have hStep : (step P s (.resume other answer)).1.calls[number]? = some point := by
              cases hOther : s.calls[other]? with
              | none =>
                  rw [step_resume_none hOther]
                  exact hPoint
              | some waiting =>
                  rw [step_resume_some hOther]
                  exact (List.getElem?_set_ne hSame).trans hPoint
            obtain ⟨after, hAfter, hKept, hLeft⟩ := ih hStep hGood
            refine ⟨after, hAfter, hKept, ?_⟩
            simp only [resumes, if_neg hSame]
            omega

variable {SharedRecord LocalRecord : Type u}

structure Auxiliary (Shared Local Call Answer Event Observation SharedRecord LocalRecord : Type u) where
  start : Shared → Call → Turn Shared Local Observation → SharedRecord → SharedRecord × LocalRecord
  resume : Shared → Local → Answer → Turn Shared Local Observation → SharedRecord → LocalRecord →
    SharedRecord × LocalRecord
  event : Shared → Event → SharedRecord → SharedRecord

variable (P) in
def recorded
    (R : Auxiliary Shared Local Call Answer Event Observation SharedRecord LocalRecord) :
    Program (Shared × SharedRecord) (Local × LocalRecord) Call Answer Event Observation where
  start s call :=
    let turn := P.start s.1 call
    let after := R.start s.1 call turn s.2
    ⟨(turn.shared, after.1), (turn.point, after.2), turn.observation⟩
  resume s l answer :=
    let turn := P.resume s.1 l.1 answer
    let after := R.resume s.1 l.1 answer turn s.2 l.2
    ⟨(turn.shared, after.1), (turn.point, after.2), turn.observation⟩
  event s e := (((P.event s.1 e).1, R.event s.1 e s.2), (P.event s.1 e).2)

/-- The system without its records. -/
def erase (s : System (Shared × SharedRecord) (Local × LocalRecord)) : System Shared Local :=
  ⟨s.shared.1, s.calls.map (·.1)⟩

/-- One step of the recorded program is a step of the program itself once the
records are erased, so no record influences what happens. -/
theorem erase_step
    (R : Auxiliary Shared Local Call Answer Event Observation SharedRecord LocalRecord)
    (s : System (Shared × SharedRecord) (Local × LocalRecord)) (a : Action Call Answer Event) :
    erase (step (recorded P R) s a).1 = (step P (erase s) a).1 := by
  cases a with
  | start call =>
      show System.mk _ (List.map _ (s.calls ++ [_])) = System.mk _ _
      rw [List.map_append]
      rfl
  | event e => rfl
  | resume number answer =>
      cases hPoint : s.calls[number]? with
      | none =>
          have hErased : (erase s).calls[number]? = none := by
            show (s.calls.map _)[number]? = none
            rw [List.getElem?_map, hPoint]
            rfl
          rw [step_resume_none hPoint, step_resume_none hErased]
      | some l =>
          have hErased : (erase s).calls[number]? = some l.1 := by
            show (s.calls.map _)[number]? = some l.1
            rw [List.getElem?_map, hPoint]
            rfl
          rw [step_resume_some hPoint, step_resume_some hErased]
          show System.mk _ (List.map _ (s.calls.set number _)) = System.mk _ _
          rw [List.map_set]
          rfl

/-- A run with records is the run without them. -/
theorem erase_final
    (R : Auxiliary Shared Local Call Answer Event Observation SharedRecord LocalRecord)
    (s : System (Shared × SharedRecord) (Local × LocalRecord))
    (as : List (Action Call Answer Event)) :
    erase (Execution.final (step (recorded P R)) s as) =
      Execution.final (step P) (erase s) as := by
  induction as generalizing s with
  | nil => rfl
  | cons a as ih =>
      rw [Execution.final, Execution.final, ih, erase_step]

end Interleaving
