import Mathlib.Data.List.Induction

/-! Finite executions of a deterministic transition function that reports one
observation for each action. Nondeterminism belongs to the action: it names
the scheduler's choice and every answer of the environment. -/
namespace Execution

universe u v w

variable {State : Type u} {Action : Type v} {Observation : Type w}
  (step : State → Action → State × Observation)

/-- The state after every action of the list has been taken in order. -/
def final (s : State) : List Action → State
  | [] => s
  | a :: as => final (step s a).1 as

/-- What is observed along the same execution, oldest observation first. -/
def trace (s : State) : List Action → List Observation
  | [] => []
  | a :: as => (step s a).2 :: trace (step s a).1 as

/-- A condition on the state before each action and on that action, required
at every step of one execution. -/
def Along (admissible : State → Action → Prop) (s : State) : List Action → Prop
  | [] => True
  | a :: as => admissible s a ∧ Along admissible (step s a).1 as

/-- The execution can go on to such a state. -/
def CanReach (holds : State → Prop) (s : State) : Prop := ∃ as, holds (final step s as)

@[simp] theorem final_nil (s : State) : final step s [] = s := rfl

@[simp] theorem trace_nil (s : State) : trace step s [] = [] := rfl

/-- An execution in two parts ends where the second ends that begins where the
first has ended. -/
theorem final_append (s : State) (first second : List Action) :
    final step s (first ++ second) = final step (final step s first) second := by
  induction first generalizing s with
  | nil => rfl
  | cons a as ih => exact ih (step s a).1

theorem trace_append (s : State) (first second : List Action) :
    trace step s (first ++ second) =
      trace step s first ++ trace step (final step s first) second := by
  induction first generalizing s with
  | nil => rfl
  | cons a as ih => simp only [List.cons_append, trace, ih, final]

@[simp] theorem length_trace (s : State) (as : List Action) :
    (trace step s as).length = as.length := by
  induction as generalizing s with
  | nil => rfl
  | cons a as ih => exact congrArg Nat.succ (ih (step s a).1)

/-- A condition on the steps of an execution in two parts is the condition on
each of them. -/
theorem along_append (admissible : State → Action → Prop) (s : State)
    (first second : List Action) :
    Along step admissible s (first ++ second) ↔
      Along step admissible s first ∧ Along step admissible (final step s first) second := by
  induction first generalizing s with
  | nil => simp [Along]
  | cons a as ih => simp only [List.cons_append, Along, ih, final, and_assoc]

@[simp] theorem final_concat (s : State) (as : List Action) (a : Action) :
    final step s (as ++ [a]) = (step (final step s as) a).1 := final_append step s as [a]

/-- What can be reached later can be reached. -/
theorem CanReach.append {holds : State → Prop} {s : State} (as : List Action)
    (h : CanReach step holds (final step s as)) : CanReach step holds s := by
  obtain ⟨more, hReached⟩ := h
  refine ⟨as ++ more, ?_⟩
  rw [final_append]
  exact hReached

variable {step} in
theorem CanReach.cons {holds : State → Prop} {s : State} {a : Action}
    (h : CanReach step holds (step s a).1) : CanReach step holds s :=
  CanReach.append step [a] h

@[simp] theorem trace_concat (s : State) (as : List Action) (a : Action) :
    trace step s (as ++ [a]) = trace step s as ++ [(step (final step s as) a).2] :=
  trace_append step s as [a]

/-- The last step of an execution meets a condition in the state that the others
have led to. -/
theorem along_concat (admissible : State → Action → Prop) (s : State) (as : List Action)
    (a : Action) : Along step admissible s (as ++ [a]) ↔
      Along step admissible s as ∧ admissible (final step s as) a := by
  simp [along_append, Along]

/-- Whether one execution meets a condition can be computed. -/
instance decidableAlong (admissible : State → Action → Prop) [∀ s a, Decidable (admissible s a)]
    (s : State) : (as : List Action) → Decidable (Along step admissible s as)
  | [] => .isTrue trivial
  | a :: as =>
      have := decidableAlong admissible (step s a).1 as
      inferInstanceAs (Decidable (admissible s a ∧ Along step admissible (step s a).1 as))

/-- A condition that implies another at every step does so along executions. -/
theorem along_mono {p q : State → Action → Prop} (h : ∀ s a, p s a → q s a) {s : State}
    {as : List Action} (hAlong : Along step p s as) : Along step q s as := by
  induction as generalizing s with
  | nil => trivial
  | cons a as ih => exact ⟨h s a hAlong.1, ih hAlong.2⟩

/-- Two conditions along an execution are one. -/
theorem along_and (p q : State → Action → Prop) (s : State) (as : List Action) :
    Along step (fun s a => p s a ∧ q s a) s as ↔ Along step p s as ∧ Along step q s as := by
  induction as generalizing s with
  | nil => simp [Along]
  | cons a as ih => simp only [Along, ih, and_assoc, and_left_comm]

theorem along_trivial (s : State) (as : List Action) : Along step (fun _ _ => True) s as := by
  induction as generalizing s with
  | nil => trivial
  | cons a as ih => exact ⟨trivial, ih _⟩

/-- Every step that the execution takes is admissible. -/
theorem along_iff (admissible : State → Action → Prop) (s : State) (as : List Action) :
    Along step admissible s as ↔ ∀ before a after, as = before ++ a :: after →
      admissible (final step s before) a := by
  constructor
  · intro h before a after hSplit
    rw [hSplit, along_append] at h
    exact h.2.1
  · intro h
    induction as using List.reverseRecOn with
    | nil => trivial
    | append_singleton as a ih =>
        rw [along_concat]
        refine ⟨ih ?_, h as a [] rfl⟩
        intro before b after hSplit
        exact h before b (after ++ [a]) (by rw [hSplit, List.append_assoc, List.cons_append])

/-- A predicate on the observed history and the current state holds after
every execution once it holds of the empty history and survives one step. -/
theorem history_invariant_along {admissible : State → Action → Prop} {start : State}
    (holds : List Observation → State → Prop) (hStart : holds [] start)
    (hStep : ∀ past s a, holds past s → admissible s a →
      holds (past ++ [(step s a).2]) (step s a).1)
    (as : List Action) (h : Along step admissible start as) :
    holds (trace step start as) (final step start as) := by
  induction as using List.reverseRecOn with
  | nil => exact hStart
  | append_singleton as a ih =>
      obtain ⟨hPast, hLast⟩ := (along_concat step admissible start as a).mp h
      rw [final_concat, trace_concat]
      exact hStep _ _ a (ih hPast) hLast

/-- What holds at the start and is kept by every step, with what has been
observed so far, holds after every execution. -/
theorem history_invariant {start : State} (holds : List Observation → State → Prop)
    (hStart : holds [] start)
    (hStep : ∀ past s a, holds past s → holds (past ++ [(step s a).2]) (step s a).1)
    (as : List Action) : holds (trace step start as) (final step start as) :=
  history_invariant_along step holds hStart (fun past s a h _ => hStep past s a h) as
    (along_trivial step start as)

/-- What an invariant and one condition imply at each step, they imply along
the execution. -/
theorem along_imp {p q : State → Action → Prop} (holds : State → Prop)
    (hKeep : ∀ s a, holds s → p s a → holds (step s a).1)
    (hImp : ∀ s a, holds s → p s a → q s a) {s : State} (h : holds s) {as : List Action}
    (hAlong : Along step p s as) : Along step q s as := by
  induction as generalizing s with
  | nil => trivial
  | cons a as ih => exact ⟨hImp s a h hAlong.1, ih (hKeep s a h hAlong.1) hAlong.2⟩

/-- The state-only rule under a condition. -/
theorem invariant_along {admissible : State → Action → Prop} (holds : State → Prop)
    (hKeep : ∀ s a, holds s → admissible s a → holds (step s a).1) {s : State} (h : holds s)
    {as : List Action} (hAlong : Along step admissible s as) : holds (final step s as) := by
  induction as generalizing s with
  | nil => exact h
  | cons a as ih => exact ih (hKeep s a h hAlong.1) hAlong.2

/-- Two conditions that agree in every state of an invariant are met by the
same executions. -/
theorem along_congr {p q : State → Action → Prop} (holds : State → Prop)
    (hKeep : ∀ s a, holds s → holds (step s a).1)
    (hSame : ∀ s a, holds s → (p s a ↔ q s a)) {s : State} (h : holds s) (as : List Action) :
    Along step p s as ↔ Along step q s as := by
  induction as generalizing s with
  | nil => exact Iff.rfl
  | cons a as ih => exact and_congr (hSame s a h) (ih (hKeep s a h))

/-- The state-only form of the same rule. -/
theorem invariant {start : State} (holds : State → Prop) (hStart : holds start)
    (hStep : ∀ s a, holds s → holds (step s a).1) (as : List Action) :
    holds (final step start as) :=
  history_invariant step (fun _ s => holds s) hStart (fun _ s a h => hStep s a h) as

/-- A reflexive and transitive relation that every step from an invariant
state respects relates the two ends of every execution from such a state. -/
theorem related {holds : State → Prop} (relation : State → State → Prop)
    (hRefl : ∀ s, relation s s)
    (hTrans : ∀ s t u, relation s t → relation t u → relation s u)
    (hKeep : ∀ s a, holds s → holds (step s a).1)
    (hStep : ∀ s a, holds s → relation s (step s a).1)
    (s : State) (h : holds s) (as : List Action) : relation s (final step s as) := by
  induction as generalizing s with
  | nil => exact hRefl s
  | cons a as ih => exact hTrans _ _ _ (hStep s a h) (ih _ (hKeep s a h))

section Watched

variable {Record : Type*} (watch : State → Action → Record → Record)

def watched (p : State × Record) (a : Action) : (State × Record) × Observation :=
  (((step p.1 a).1, watch p.1 a p.2), (step p.1 a).2)

/-- Without the record the execution is what it was. -/
theorem final_watched (p : State × Record) (as : List Action) :
    (final (watched step watch) p as).1 = final step p.1 as := by
  induction as generalizing p with
  | nil => rfl
  | cons a as ih => exact ih (watched step watch p a).1

end Watched

/-- An observation that occurs in a trace was made by one step of it: the
actions split into those before, the observed one and those after. -/
theorem trace_split {s : State} {as : List Action} {past future : List Observation}
    {o : Observation} (h : trace step s as = past ++ o :: future) :
    ∃ before a after, as = before ++ a :: after ∧ trace step s before = past ∧
      (step (final step s before) a).2 = o := by
  induction past generalizing s as with
  | nil =>
      cases as with
      | nil => simp at h
      | cons a as =>
          simp only [trace, List.nil_append, List.cons.injEq] at h
          exact ⟨[], a, as, rfl, rfl, h.1⟩
  | cons p past ih =>
      cases as with
      | nil => simp at h
      | cons a as =>
          simp only [trace, List.cons_append, List.cons.injEq] at h
          obtain ⟨before, b, after, rfl, hTrace, hObserved⟩ := ih h.2
          exact ⟨a :: before, b, after, rfl, by simp [trace, h.1, hTrace], hObserved⟩

end Execution
