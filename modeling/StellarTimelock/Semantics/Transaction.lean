import Mathlib.Logic.Basic

/-! Stateful computations that can fail after some of their effects, and the
host that keeps the effects of a computation only when it succeeds. A failing
`EStateM` run still returns the state it had reached, so what the body did
before failing can be stated separately from what the host keeps. -/
namespace Transaction

variable {Failure State α β : Type}

/-- A sequence succeeds exactly when both of its parts do. -/
theorem run_bind_ok (x : EStateM Failure State α) (f : α → EStateM Failure State β)
    (s t : State) (b : β) : EStateM.run (x >>= f) s = .ok b t ↔
      ∃ a m, EStateM.run x s = .ok a m ∧ EStateM.run (f a) m = .ok b t := by
  rw [EStateM.run_bind]
  cases EStateM.run x s <;> simp [and_assoc]

/-- The same rule for a computation without a state. -/
theorem except_bind_ok {x : Except Failure α} {f : α → Except Failure β} {b : β} :
    x >>= f = .ok b ↔ ∃ a, x = .ok a ∧ f a = .ok b := by
  cases x with
  | error e =>
      constructor
      · intro h
        cases h
      · rintro ⟨a, h, _⟩
        cases h
  | ok a =>
      constructor
      · intro h
        exact ⟨a, rfl, h⟩
      · rintro ⟨_, h, hRest⟩
        cases h
        exact hRest

/-- Leave the computation with this failure when the condition holds. -/
def refuseIf (condition : Prop) [Decidable condition] (failure : Failure) :
    EStateM Failure State PUnit :=
  if condition then throw failure else pure ()

/-- A guard passes exactly if its condition fails, and changes nothing. -/
theorem run_refuseIf_ok {condition : Prop} [Decidable condition] {failure : Failure}
    {s t : State} {u : PUnit} :
    EStateM.run (refuseIf condition failure) s = .ok u t ↔ ¬condition ∧ t = s := by
  by_cases h : condition <;> simp [refuseIf, h, eq_comm]

/-- Continue with the value when there is one. -/
def orFail (value : Option α) (failure : Failure) : EStateM Failure State α :=
  match value with
  | some a => pure a
  | none => fun s => .error failure s

theorem run_orFail_ok {value : Option α} {failure : Failure} {s t : State} {a : α} :
    EStateM.run (orFail value failure) s = .ok a t ↔ value = some a ∧ t = s := by
  cases value with
  | none => simp [orFail, EStateM.run]
  | some b => simp [orFail, eq_comm]

/-- Sequencing rules come next: how a run that starts with a basic step
continues. Reading the state hands it to the rest. -/
theorem run_get_bind (f : State → EStateM Failure State β) (s : State) :
    EStateM.run (get >>= f) s = EStateM.run (f s) s := rfl

theorem run_modify_bind (g : State → State) (f : PUnit → EStateM Failure State β) (s : State) :
    EStateM.run (modify g >>= f) s = EStateM.run (f ⟨⟩) (g s) := rfl

/-- A run that starts with a guard succeeds exactly if the guard passes and the
rest succeeds from the same state. -/
theorem run_refuseIf_bind_ok {condition : Prop} [Decidable condition] {failure : Failure}
    {f : PUnit → EStateM Failure State β} {s t : State} {b : β} :
    EStateM.run (refuseIf condition failure >>= f) s = .ok b t ↔
      ¬condition ∧ EStateM.run (f ⟨⟩) s = .ok b t := by
  simp only [run_bind_ok, run_refuseIf_ok]
  constructor
  · rintro ⟨_, _, ⟨hPassed, rfl⟩, hRest⟩
    exact ⟨hPassed, hRest⟩
  · rintro ⟨hPassed, hRest⟩
    exact ⟨⟨⟩, s, ⟨hPassed, rfl⟩, hRest⟩

/-- A run that starts by asking for a value succeeds exactly if there is one and
the rest succeeds with it. -/
theorem run_orFail_bind_ok {value : Option α} {failure : Failure}
    {f : α → EStateM Failure State β} {s t : State} {b : β} :
    EStateM.run (orFail value failure >>= f) s = .ok b t ↔
      ∃ a, value = some a ∧ EStateM.run (f a) s = .ok b t := by
  simp only [run_bind_ok, run_orFail_ok]
  constructor
  · rintro ⟨a, _, ⟨hValue, rfl⟩, hRest⟩
    exact ⟨a, hValue, hRest⟩
  · rintro ⟨a, hValue, hRest⟩
    exact ⟨a, s, ⟨hValue, rfl⟩, hRest⟩

theorem run_modify_ok {f : State → State} {s t : State} {u : PUnit} :
    EStateM.run (modify f : EStateM Failure State PUnit) s = .ok u t ↔ t = f s := by
  simp [eq_comm]

theorem run_pure_ok {a b : α} {s t : State} :
    EStateM.run (pure a : EStateM Failure State α) s = .ok b t ↔ b = a ∧ t = s := by
  simp [eq_comm]

/-- Leave a reading computation with this failure when the condition holds. -/
def refuse (condition : Prop) [Decidable condition] (failure : Failure) :
    ReaderT State (Except Failure) PUnit :=
  fun _ => if condition then .error failure else .ok ⟨⟩

/-- Read on with the value when there is one. -/
def demand (value : Option α) (failure : Failure) : ReaderT State (Except Failure) α := fun _ =>
  match value with
  | some a => .ok a
  | none => .error failure

/-- The rules for computations that can only read, which are the first parts of
those that check before they act: the state is handed to the rest. -/
theorem read_bind (f : State → ReaderT State (Except Failure) β) (s : State) :
    (read >>= f) s = f s s := rfl

/-- A reading computation that starts with a guard succeeds exactly if the guard
passes and the rest succeeds. -/
theorem refuse_bind_ok {condition : Prop} [Decidable condition] {failure : Failure}
    {f : PUnit → ReaderT State (Except Failure) β} {s : State} {b : β} :
    (refuse condition failure >>= f) s = .ok b ↔ ¬condition ∧ f ⟨⟩ s = .ok b := by
  have hBind : (refuse condition failure >>= f) s =
      (refuse condition failure s >>= fun u => f u s) := rfl
  rw [hBind, except_bind_ok]
  unfold refuse
  by_cases h : condition
  · simp [h]
  · rw [if_neg h]
    exact ⟨fun ⟨_, _, hRest⟩ => ⟨h, hRest⟩, fun ⟨_, hRest⟩ => ⟨⟨⟩, rfl, hRest⟩⟩

/-- One that starts by asking for a value succeeds exactly if there is one and
the rest succeeds with it. -/
theorem demand_bind_ok {value : Option α} {failure : Failure}
    {f : α → ReaderT State (Except Failure) β} {s : State} {b : β} :
    (demand value failure >>= f) s = .ok b ↔ ∃ a, value = some a ∧ f a s = .ok b := by
  have hBind : (demand value failure >>= f) s = (demand value failure s >>= fun a => f a s) := rfl
  rw [hBind, except_bind_ok]
  unfold demand
  cases value <;> simp

theorem reader_pure_ok {a b : α} {s : State} :
    (pure a : ReaderT State (Except Failure) α) s = .ok b ↔ b = a := by
  have hPure : (pure a : ReaderT State (Except Failure) α) s = .ok a := rfl
  rw [hPure, Except.ok.injEq]
  exact eq_comm

/-- A computation that reads the state, as one that could also change it. -/
def inspect (checks : ReaderT State (Except Failure) α) : EStateM Failure State α := fun s =>
  match checks s with
  | .ok a => .ok a s
  | .error e => .error e s

/-- Embedding a reading computation respects sequencing, so that a body can be
split into its checks and its effects step by step. -/
theorem inspect_bind (x : ReaderT State (Except Failure) α)
    (f : α → ReaderT State (Except Failure) β) :
    inspect (x >>= f) = inspect x >>= fun a => inspect (f a) := by
  funext s
  show inspect (x >>= f) s = EStateM.bind (inspect x) (fun a => inspect (f a)) s
  unfold EStateM.bind inspect
  have hBind : (x >>= f) s = (x s >>= fun a => f a s) := rfl
  rw [hBind]
  cases x s <;> rfl

theorem inspect_pure (a : α) :
    inspect (pure a : ReaderT State (Except Failure) α) = pure a := rfl

theorem inspect_read : inspect (read : ReaderT State (Except Failure) State) = get := rfl

/-- The embedded guard is the guard of the full computations. -/
theorem inspect_refuse (condition : Prop) [Decidable condition] (failure : Failure) :
    (inspect (refuse condition failure) : EStateM Failure State PUnit) =
      refuseIf condition failure := by
  funext s
  unfold inspect refuse refuseIf
  by_cases h : condition
  · simp only [if_pos h]
    rfl
  · simp only [if_neg h]
    rfl

theorem inspect_demand (value : Option α) (failure : Failure) :
    (inspect (demand value failure) : EStateM Failure State α) = orFail value failure := by
  funext s
  cases value <;> rfl

/-- A failure comes from the reading part, which leaves the state as it was, or
from the part after it. -/
theorem run_inspect_bind_error {checks : ReaderT State (Except Failure) α}
    {f : α → EStateM Failure State β} {s t : State} {e : Failure} :
    EStateM.run (inspect checks >>= f) s = .error e t ↔
      checks s = .error e ∧ t = s ∨
        ∃ a, checks s = .ok a ∧ EStateM.run (f a) s = .error e t := by
  rw [EStateM.run_bind]
  have hRun : EStateM.run (inspect checks) s = inspect checks s := rfl
  rw [hRun]
  unfold inspect
  cases checks s with
  | error failure => simp [eq_comm]
  | ok a => simp

/-- A sequence fails exactly when its first part does, or its second part does
after it. -/
theorem run_bind_error {x : EStateM Failure State α} {f : α → EStateM Failure State β}
    {s t : State} {e : Failure} : EStateM.run (x >>= f) s = .error e t ↔
      EStateM.run x s = .error e t ∨
        ∃ a m, EStateM.run x s = .ok a m ∧ EStateM.run (f a) m = .error e t := by
  rw [EStateM.run_bind]
  cases EStateM.run x s <;> simp [and_assoc]

/-- A run that starts with a guard fails in the state in which it began if the
guard refuses, and where the rest fails otherwise. -/
theorem run_refuseIf_bind_error {condition : Prop} [Decidable condition] {failure e : Failure}
    {f : PUnit → EStateM Failure State β} {s t : State} :
    EStateM.run (refuseIf condition failure >>= f) s = .error e t ↔
      (condition ∧ e = failure ∧ t = s) ∨
        ¬condition ∧ EStateM.run (f ⟨⟩) s = .error e t := by
  unfold refuseIf
  by_cases h : condition
  · rw [if_pos h, EStateM.run_bind]
    simp [h, eq_comm]
  · rw [if_neg h, pure_bind]
    simp [h]

/-- A run that starts by asking for a value fails at once if there is none, and
where the rest fails otherwise. -/
theorem run_orFail_bind_error {value : Option α} {failure e : Failure}
    {f : α → EStateM Failure State β} {s t : State} :
    EStateM.run (orFail value failure >>= f) s = .error e t ↔
      (value = none ∧ e = failure ∧ t = s) ∨
        ∃ a, value = some a ∧ EStateM.run (f a) s = .error e t := by
  cases value with
  | none =>
      rw [run_bind_error]
      simp [orFail, EStateM.run, eq_comm]
  | some a =>
      show EStateM.run (f a) s = _ ↔ _
      simp

/-- Run the body and forget every effect of a failed run. -/
def atomically (body : EStateM Failure State α) (s : State) : Except Failure α × State :=
  match EStateM.run body s with
  | .ok a t => (.ok a, t)
  | .error e _ => (.error e, s)

/-- A body that succeeds keeps its effects: rolling back concerns the failures
only. -/
theorem atomically_ok {body : EStateM Failure State α} {s : State} {a : α} {t : State} :
    atomically body s = (.ok a, t) ↔ EStateM.run body s = .ok a t := by
  unfold atomically
  split <;> simp_all

/-- A failed run leaves the state it started from. -/
theorem atomically_error {body : EStateM Failure State α} {s t : State} {e : Failure}
    (h : EStateM.run body s = .error e t) : atomically body s = (.error e, s) := by
  unfold atomically
  rw [h]

end Transaction
