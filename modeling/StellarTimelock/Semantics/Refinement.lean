import StellarTimelock.Semantics.Execution

/-! Two ways to relate executions: a machine that does step by step what an
ideal one does, and a view of the state that the observed history determines. -/
namespace Execution

universe u v w x y z

variable {State : Type u} {Action : Type v} {Observation : Type w}

section Simulation

variable {Ideal : Type x} {Seen : Type y}

/-- From related states both machines step to related states, and the one is
seen to do what the other is observed to do. -/
structure Simulation (step : State → Action → State × Observation)
    (ideal : Ideal → Action → Ideal × Seen) (related : State → Ideal → Prop)
    (seen : Observation → Seen) : Prop where
  next : ∀ s t a, related s t → related (step s a).1 (ideal t a).1
  observed : ∀ s t a, related s t → seen (step s a).2 = (ideal t a).2

variable {step : State → Action → State × Observation} {ideal : Ideal → Action → Ideal × Seen}
  {related : State → Ideal → Prop} {seen : Observation → Seen}

/-- A simulation that holds of two states holds of the states after any run from
them. -/
theorem Simulation.final (h : Simulation step ideal related seen) {s : State} {t : Ideal}
    (hStart : related s t) (as : List Action) :
    related (final step s as) (Execution.final ideal t as) := by
  induction as generalizing s t with
  | nil => exact hStart
  | cons a as ih => exact ih (h.next s t a hStart)

/-- What is seen of a run of the lower system is the run of the upper one,
observation by observation. -/
theorem Simulation.trace (h : Simulation step ideal related seen) {s : State} {t : Ideal}
    (hStart : related s t) (as : List Action) :
    (trace step s as).map seen = Execution.trace ideal t as := by
  induction as generalizing s t with
  | nil => rfl
  | cons a as ih =>
      simp only [Execution.trace, List.map_cons]
      rw [h.observed s t a hStart, ih (h.next s t a hStart)]

end Simulation

section Journal

variable {View : Type x} {Entry : Type y} (step : State → Action → State × Observation)

/-- If each step changes a view of the state as the entries it is observed to
make say, the view after an execution is the journal of it played back. -/
theorem view_eq_foldl (view : State → View) (entries : Observation → List Entry)
    (replay : View → Entry → View) (holds : State → Prop)
    (hKeep : ∀ s a, holds s → holds (step s a).1)
    (hView : ∀ s a, holds s → view (step s a).1 = (entries (step s a).2).foldl replay (view s))
    {s : State} (h : holds s) (as : List Action) :
    view (final step s as) = ((trace step s as).flatMap entries).foldl replay (view s) := by
  induction as generalizing s with
  | nil => rfl
  | cons a as ih =>
      simp only [final, trace, List.flatMap_cons, List.foldl_append]
      rw [ih (hKeep s a h), hView s a h]

section Answers

variable {Answer : Type z} (replay : View → Entry → View) (answer : View → Entry → Answer)

/-- What the entries of a journal are answered, each from the view that those
before it have made. -/
def answers : View → List Entry → List Answer
  | _, [] => []
  | v, e :: es => answer v e :: answers (replay v e) es

/-- The answers to a history are those to its first part, followed by those to
the rest as replayed on the view that the first part leaves. -/
theorem answers_append (v : View) (es es' : List Entry) :
    answers replay answer v (es ++ es') =
      answers replay answer v es ++ answers replay answer (es.foldl replay v) es' := by
  induction es generalizing v with
  | nil => rfl
  | cons e es ih => exact congrArg (answer v e :: ·) (ih (replay v e))

/-- A change of names that the journal respects changes the names in the answers. -/
theorem answers_map (f : View → View) (g : Entry → Entry) (k : Answer → Answer)
    (hReplay : ∀ v e, replay (f v) (g e) = f (replay v e))
    (hAnswer : ∀ v e, answer (f v) (g e) = k (answer v e)) (v : View) (es : List Entry) :
    answers replay answer (f v) (es.map g) = (answers replay answer v es).map k := by
  induction es generalizing v with
  | nil => rfl
  | cons e es ih =>
      simp only [List.map_cons, answers, hAnswer, hReplay]
      rw [ih]

/-- If what each step is observed to tell is the answer to the entries it makes
in the view it starts from, an execution tells the answers to its journal. -/
theorem told_eq_answers (view : State → View) (entries : Observation → List Entry)
    (told : Observation → List Answer) (holds : State → Prop)
    (hKeep : ∀ s a, holds s → holds (step s a).1)
    (hView : ∀ s a, holds s → view (step s a).1 = (entries (step s a).2).foldl replay (view s))
    (hTold : ∀ s a, holds s →
      told (step s a).2 = answers replay answer (view s) (entries (step s a).2))
    {s : State} (h : holds s) (as : List Action) :
    (trace step s as).flatMap told =
      answers replay answer (view s) ((trace step s as).flatMap entries) := by
  induction as generalizing s with
  | nil => rfl
  | cons a as ih =>
      simp only [trace, List.flatMap_cons, answers_append]
      rw [ih (hKeep s a h), hView s a h, hTold s a h]

end Answers

end Journal

end Execution
