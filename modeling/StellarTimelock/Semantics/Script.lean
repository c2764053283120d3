import StellarTimelock.Semantics.Interleaving
import Mathlib.Data.List.Perm.Basic
import Mathlib.Order.Lattice.Nat

/-! Sequential programs that wait. Between two questions a script may read
variables that others change, and it writes what it does into a journal that all
scripts share. One rule says what holds of a script in every interleaving, from
its text alone. -/

/-- A script is told the place in the journal of what it writes. -/
inductive Script (Env Question : Type) (Answer : Question → Type) (Note Result : Type) : Type where
  | done (result : Result)
  | read (next : Env → Script Env Question Answer Note Result)
  | tell (note : Note) (next : Nat → Script Env Question Answer Note Result)
  | ask (question : Question) (next : Answer question → Script Env Question Answer Note Result)

namespace Script

open Execution

variable {Env Question Note Result Other : Type} {Answer : Question → Type}

def bind (script : Script Env Question Answer Note Result)
    (rest : Result → Script Env Question Answer Note Other) :
    Script Env Question Answer Note Other :=
  match script with
  | .done result => rest result
  | .read next => .read fun env => (next env).bind rest
  | .tell note next => .tell note fun place => (next place).bind rest
  | .ask question next => .ask question fun answer => (next answer).bind rest

instance : Monad (Script Env Question Answer Note) where
  pure := .done
  bind := bind

section Commands

variable {Error : Type}

/-- The variables as they are. -/
def env : ExceptT Error (Script Env Question Answer Note) Env := ExceptT.lift (.read .done)

/-- Write into the journal. -/
def note (n : Note) : ExceptT Error (Script Env Question Answer Note) Nat :=
  ExceptT.lift (.tell n .done)

def await (question : Question) :
    ExceptT Error (Script Env Question Answer Note) (Answer question) :=
  ExceptT.lift (.ask question .done)

def ofResult (result : Except Error Result) :
    ExceptT Error (Script Env Question Answer Note) Result :=
  ExceptT.mk (.done result)

end Commands

/-- The variables that a script reads, and the journal. -/
structure World (Env Note : Type) where
  env : Env
  journal : List Note

def World.tell (w : World Env Note) (note : Note) : World Env Note :=
  { w with journal := w.journal ++ [note] }

/-- Journals only grow. -/
instance [Preorder Env] : Preorder (World Env Note) where
  le w w' := w.env ≤ w'.env ∧ w.journal <+: w'.journal
  le_refl w := ⟨le_refl w.env, List.prefix_refl w.journal⟩
  le_trans _ _ _ h h' := ⟨le_trans h.1 h'.1, h.2.trans h'.2⟩

/-- A note that is added to the journal takes nothing away from it. -/
theorem World.le_tell [Preorder Env] (w : World Env Note) (note : Note) : w ≤ w.tell note :=
  ⟨le_refl w.env, List.prefix_append w.journal [note]⟩

/-- A script on its way, with what it wrote itself. -/
structure Running (Env Question : Type) (Answer : Question → Type) (Note Result Call : Type) where
  call : Call
  log : List Note
  script : Script Env Question Answer Note Result

/-- Go on until the next question. -/
def settle (w : World Env Note) (log : List Note) :
    Script Env Question Answer Note Result →
      World Env Note × List Note × Script Env Question Answer Note Result
  | .done result => (w, log, .done result)
  | .read next => settle w log (next w.env)
  | .tell note next => settle (w.tell note) (log ++ [note]) (next w.journal.length)
  | .ask question next => (w, log, .ask question next)

variable {Call Event : Type}

/-- Scripts as concurrent calls. An answer is an answer to whatever is asked;
an event changes the variables and may look into the journal. -/
def program (body : Call → Script Env Question Answer Note Result)
    (event : World Env Note → Event → Env) :
    Interleaving.Program (World Env Note) (Running Env Question Answer Note Result Call) Call
      ((question : Question) → Answer question) Event Unit where
  start w call :=
    let after := settle w [] (body call)
    ⟨after.1, ⟨call, after.2.1, after.2.2⟩, ()⟩
  resume w l answers :=
    match l.script with
    | .ask question next =>
        let after := settle w l.log (next (answers question))
        ⟨after.1, ⟨l.call, after.2.1, after.2.2⟩, ()⟩
    | .done _ | .read _ | .tell _ _ => ⟨w, l, ()⟩
  event w e := ({ w with env := event w e }, ())

section Meets

variable [Preorder Env] (honest : World Env Note → (question : Question) → Answer question → Prop)
  (permits : World Env Note → Note → Prop) (pause : List Note → Prop)

/-- Whatever others do meanwhile and whatever honest answers come, the script
writes only what is permitted, has its log in order whenever it waits, and ends
as promised. -/
def Meets (post : World Env Note → List Note → Result → Prop) :
    Script Env Question Answer Note Result → World Env Note → List Note → Prop
  | .done result, w, log => post w log result
  | .read next, w, log => (next w.env).Meets post w log
  | .tell note next, w, log =>
      permits w note ∧ (next w.journal.length).Meets post (w.tell note) (log ++ [note])
  | .ask question next, w, log =>
      pause log ∧ ∀ w', w ≤ w' → ∀ answer, honest w' question answer →
        (next answer).Meets post w' log

variable {honest permits pause}

/-- The rule of composition: a sequence meets a postcondition if and only if its
first part ends where the rest meets it. -/
@[simp] theorem meets_bind {post : World Env Note → List Note → Other → Prop}
    {script : Script Env Question Answer Note Result}
    {rest : Result → Script Env Question Answer Note Other} {w : World Env Note} {log : List Note} :
    Meets honest permits pause post (script >>= rest) w log ↔
      Meets honest permits pause (fun w log result => Meets honest permits pause post (rest result) w log) script w
        log := by
  induction script generalizing w log with
  | done result => exact Iff.rfl
  | read next ih => exact ih w.env
  | tell note next ih => exact and_congr Iff.rfl (ih w.journal.length)
  | ask question next ih =>
      refine and_congr Iff.rfl ?_
      exact forall_congr' fun w' => forall_congr' fun _ => forall_congr' fun answer =>
        forall_congr' fun _ => ih answer

/-- The rule of consequence: a script that meets a postcondition meets every
weaker one. -/
theorem Meets.mono {post post' : World Env Note → List Note → Result → Prop}
    (hPost : ∀ w log result, post w log result → post' w log result)
    {script : Script Env Question Answer Note Result} {w : World Env Note} {log : List Note}
    (h : Meets honest permits pause post script w log) : Meets honest permits pause post' script w log := by
  induction script generalizing w log with
  | done result => exact hPost w log result h
  | read next ih => exact ih w.env h
  | tell note next ih => exact ⟨h.1, ih w.journal.length h.2⟩
  | ask question next ih =>
      exact ⟨h.1, fun w' hLater answer hHonest => ih answer (h.2 w' hLater answer hHonest)⟩

/-- The world only grows while a script runs, so what it ends in is no earlier
than what it started from. -/
theorem Meets.later {post : World Env Note → List Note → Result → Prop}
    {script : Script Env Question Answer Note Result} {start w : World Env Note} {log : List Note}
    (hStart : start ≤ w) (h : Meets honest permits pause post script w log) :
    Meets honest permits pause (fun w log result => start ≤ w ∧ post w log result) script w log := by
  induction script generalizing w log with
  | done result => exact ⟨hStart, h⟩
  | read next ih => exact ih w.env hStart h
  | tell note next ih => exact ⟨h.1, ih w.journal.length (hStart.trans (w.le_tell note)) h.2⟩
  | ask question next ih =>
      exact ⟨h.1, fun w' hLater answer hHonest =>
        ih answer (hStart.trans hLater) (h.2 w' hLater answer hHonest)⟩

end Meets

/-- It has ended or waits for an answer. -/
def Waits : Script Env Question Answer Note Result → Prop
  | .done _ | .ask _ _ => True
  | .read _ | .tell _ _ => False

/-- What a stretch writes goes into the journal and into the log alike. -/
theorem settle_written (script : Script Env Question Answer Note Result) (w : World Env Note)
    (log : List Note) :
    (settle w log script).2.2.Waits ∧ (settle w log script).1.env = w.env ∧
      ∃ written, (settle w log script).1.journal = w.journal ++ written ∧
        (settle w log script).2.1 = log ++ written := by
  induction script generalizing w log with
  | done result => exact ⟨trivial, rfl, [], by simp [settle]⟩
  | ask question next => exact ⟨trivial, rfl, [], by simp [settle]⟩
  | read next ih => exact ih w.env w log
  | tell note next ih =>
      obtain ⟨hWaits, hEnv, written, hJournal, hLog⟩ :=
        ih w.journal.length (w.tell note) (log ++ [note])
      refine ⟨hWaits, hEnv, note :: written, ?_, ?_⟩
      · rw [settle, hJournal, World.tell, List.append_assoc, List.singleton_append]
      · rw [settle, hLog, List.append_assoc, List.singleton_append]

section Meets

variable [Preorder Env] {honest : World Env Note → (question : Question) → Answer question → Prop}
  {permits : World Env Note → Note → Prop} {pause : List Note → Prop}
  {post : World Env Note → List Note → Result → Prop}

/-- A stretch of a script only adds to the world. -/
theorem le_settle (script : Script Env Question Answer Note Result) (w : World Env Note)
    (log : List Note) : w ≤ (settle w log script).1 := by
  obtain ⟨-, hEnv, written, hJournal, -⟩ := settle_written script w log
  refine ⟨le_of_eq hEnv.symm, ?_⟩
  rw [hJournal]
  exact List.prefix_append w.journal written

/-- A stretch keeps the promise and adds nothing to the log that is not
permitted. -/
theorem Meets.settle (hPermits : ∀ w w' note, w ≤ w' → permits w note → permits w' note)
    {script : Script Env Question Answer Note Result} {w : World Env Note} {log : List Note}
    (hLog : ∀ note ∈ log, permits w note) (h : Meets honest permits pause post script w log) :
    Meets honest permits pause post (settle w log script).2.2 (settle w log script).1
        (settle w log script).2.1 ∧
      ∀ note ∈ (settle w log script).2.1, permits (settle w log script).1 note := by
  induction script generalizing w log with
  | done result => exact ⟨h, hLog⟩
  | ask question next => exact ⟨h, hLog⟩
  | read next ih => exact ih w.env hLog h
  | tell note next ih =>
      refine ih w.journal.length ?_ h.2
      intro written hWritten
      rcases List.mem_append.mp hWritten with hOld | hNew
      · exact hPermits _ _ written (w.le_tell note) (hLog written hOld)
      · rw [List.mem_singleton.mp hNew]
        exact hPermits _ _ note (w.le_tell note) h.1

/-- A promise outlasts what others do while the script waits. -/
theorem Meets.waiting
    (hStable : ∀ w w' log result, w ≤ w' → post w log result → post w' log result)
    {script : Script Env Question Answer Note Result} (hWaits : script.Waits) {w w' : World Env Note}
    {log : List Note} (hLater : w ≤ w') (h : Meets honest permits pause post script w log) :
    Meets honest permits pause post script w' log := by
  cases script with
  | done result => exact hStable w w' log result hLater h
  | read next => exact hWaits.elim
  | tell note next => exact hWaits.elim
  | ask question next => exact ⟨h.1, fun later hMore => h.2 later (hLater.trans hMore)⟩

end Meets

section Ends

variable {Error Failure : Type} [Preorder Env]
  (honest : World Env Note → (question : Question) → Answer question → Prop)
  (permits : World Env Note → Note → Prop) (pause : List Note → Prop)

/-- One promise for the value and one for the exception. -/
def Either (returns : World Env Note → List Note → Result → Prop)
    (throws : World Env Note → List Note → Error → Prop) (w : World Env Note) (log : List Note) :
    Except Error Result → Prop
  | .ok result => returns w log result
  | .error e => throws w log e

def Ends (returns : World Env Note → List Note → Result → Prop)
    (throws : World Env Note → List Note → Error → Prop)
    (script : ExceptT Error (Script Env Question Answer Note) Result) (w : World Env Note)
    (log : List Note) : Prop :=
  Meets honest permits pause (Either returns throws) script.run w log

variable {honest permits pause} {returns : World Env Note → List Note → Result → Prop}
  {throws : World Env Note → List Note → Error → Prop} {w : World Env Note} {log : List Note}

theorem meets_congr {post post' : World Env Note → List Note → Result → Prop}
    (h : ∀ w log result, post w log result ↔ post' w log result)
    {script : Script Env Question Answer Note Result} :
    Meets honest permits pause post script w log ↔ Meets honest permits pause post' script w log :=
  ⟨Meets.mono fun w log result => (h w log result).mp,
    Meets.mono fun w log result => (h w log result).mpr⟩

/-- The rule of sequence for scripts that may throw: the rest has to end well
from wherever the first part returns, and where the first part throws, so does
the whole. -/
@[simp] theorem ends_bind {returns : World Env Note → List Note → Other → Prop}
    {script : ExceptT Error (Script Env Question Answer Note) Result}
    {rest : Result → ExceptT Error (Script Env Question Answer Note) Other} :
    Ends honest permits pause returns throws (script >>= rest) w log ↔
      Ends honest permits pause
        (fun w log result => Ends honest permits pause returns throws (rest result) w log) throws
        script w log := by
  unfold Ends
  rw [ExceptT.run_bind, meets_bind]
  refine meets_congr ?_
  intro w log result
  cases result with
  | ok result => exact Iff.rfl
  | error e => exact Iff.rfl

/-- A result that is at hand meets the promise made for results of its kind, at
once. -/
@[simp] theorem ends_ofResult {result : Except Error Result} :
    Ends honest permits pause returns throws
        (ofResult result : ExceptT Error (Script Env Question Answer Note) Result) w log ↔
      Either returns throws w log result := Iff.rfl

/-- Looking at the environment returns the present one and changes nothing. -/
@[simp] theorem ends_env {returns : World Env Note → List Note → Env → Prop} :
    Ends honest permits pause returns throws
        (env : ExceptT Error (Script Env Question Answer Note) Env) w log ↔
      returns w log w.env := Iff.rfl

/-- Renaming the errors of a script takes the promise about them back along the
renaming, as an exception is rethrown under another class. -/
@[simp] theorem ends_adapt {throws : World Env Note → List Note → Failure → Prop}
    {rename : Error → Failure} {script : ExceptT Error (Script Env Question Answer Note) Result} :
    Ends honest permits pause returns throws (script.adapt rename) w log ↔
      Ends honest permits pause returns (fun w log e => throws w log (rename e)) script w log := by
  refine meets_bind.trans (meets_congr ?_)
  intro w log result
  cases result with
  | ok result => exact Iff.rfl
  | error e => exact Iff.rfl

end Ends

section Interleaved

variable [Preorder Env] {honest : World Env Note → (question : Question) → Answer question → Prop}
  {allowed : World Env Note → Event → Prop} {permits : World Env Note → Note → Prop}
  {pause : Call → List Note → Prop} {post : Call → World Env Note → List Note → Result → Prop}
  {body : Call → Script Env Question Answer Note Result} {event : World Env Note → Event → Env}

variable (honest allowed) in
/-- The answers that calls are given are honest, and events are allowed. -/
def Fair (s : Interleaving.System (World Env Note) (Running Env Question Answer Note Result Call)) :
    Interleaving.Action Call ((question : Question) → Answer question) Event → Prop
  | .start _ => True
  | .resume number answers => ∀ l question next, s.calls[number]? = some l →
      l.script = .ask question next → honest s.shared question (answers question)
  | .event e => allowed s.shared e

variable (honest permits pause post) in
/-- What holds of a call between two of its stretches. -/
structure Stands (w : World Env Note) (l : Running Env Question Answer Note Result Call) : Prop where
  waits : l.script.Waits
  written : ∀ note ∈ l.log, permits w note
  meets : Meets honest permits (pause l.call) (post l.call) l.script w l.log

/-- What holds of a call between two of its stretches is stable: the other calls
only add to the world, and promises survive that. -/
theorem Stands.later (hPermits : ∀ w w' note, w ≤ w' → permits w note → permits w' note)
    (hStable : ∀ call w w' log result, w ≤ w' → post call w log result → post call w' log result)
    {w w' : World Env Note} (hLater : w ≤ w') {l : Running Env Question Answer Note Result Call}
    (h : Stands honest permits pause post w l) : Stands honest permits pause post w' l where
  waits := h.waits
  written note hNote := hPermits w w' note hLater (h.written note hNote)
  meets := h.meets.waiting (hStable l.call) h.waits hLater

/-- A script that meets its promise stands at its next question, or at its end,
after a stretch. -/
theorem stands_settle (hPermits : ∀ w w' note, w ≤ w' → permits w note → permits w' note)
    {call : Call} {script : Script Env Question Answer Note Result} {w : World Env Note}
    {log : List Note} (hLog : ∀ note ∈ log, permits w note)
    (h : Meets honest permits (pause call) (post call) script w log) :
    Stands honest permits pause post (settle w log script).1
      ⟨call, (settle w log script).2.1, (settle w log script).2.2⟩ where
  waits := (settle_written script w log).1
  written := (h.settle hPermits hLog).2
  meets := (h.settle hPermits hLog).1

/-- Every promise that the bodies keep alone is kept in every interleaving, if
the promises only look at what grows: then no other call can break them. -/
theorem meets_outline (hEvent : ∀ w e, allowed w e → w.env ≤ event w e)
    (hPermits : ∀ w w' note, w ≤ w' → permits w note → permits w' note)
    (hStable : ∀ call w w' log result, w ≤ w' → post call w log result → post call w' log result)
    (hBody : ∀ call w, Meets honest permits (pause call) (post call) (body call) w []) :
    Interleaving.Outline (program body event) (Fair honest allowed) (fun _ _ => True)
      (fun _ w l => Stands honest permits pause post w l) where
  start past w call _ hCalls _ := by
    refine ⟨trivial, stands_settle hPermits (fun _ h => absurd h List.not_mem_nil)
      (hBody call w.shared), ?_⟩
    intro l hl
    exact (hCalls l hl).later hPermits hStable (le_settle (body call) w.shared [])
  resume past w number l answers _ hCalls hNumber hFair := by
    obtain hStands := hCalls l (List.mem_of_getElem? hNumber)
    obtain ⟨call, log, script⟩ := l
    cases script with
    | read next => exact hStands.waits.elim
    | tell note next => exact hStands.waits.elim
    | done result =>
        exact ⟨trivial, hStands, fun _ l _ hl => hCalls l (List.mem_of_getElem? hl)⟩
    | ask question next =>
        have hNext := hStands.meets.2 w.shared (le_refl w.shared) (answers question)
          (hFair _ question next hNumber rfl)
        refine ⟨trivial, stands_settle hPermits hStands.written hNext, ?_⟩
        intro other l _ hl
        exact (hCalls l (List.mem_of_getElem? hl)).later hPermits hStable
          (le_settle (next (answers question)) w.shared log)
  event past w e _ hCalls hAllowed := by
    have hLater : w.shared ≤ { w.shared with env := event w.shared e } :=
      ⟨hEvent w.shared e hAllowed, List.prefix_refl w.shared.journal⟩
    exact ⟨trivial, fun l hl => (hCalls l hl).later hPermits hStable hLater⟩
  idle past w _ := ⟨trivial, fun l h => h⟩

/-- Hence every call of a fair interleaving stands at every moment, by the
induction over all interleavings and with the stability of promises as its only
proof of non-interference. -/
theorem stands_interleaved (hEvent : ∀ w e, allowed w e → w.env ≤ event w e)
    (hPermits : ∀ w w' note, w ≤ w' → permits w note → permits w' note)
    (hStable : ∀ call w w' log result, w ≤ w' → post call w log result → post call w' log result)
    (hBody : ∀ call w, Meets honest permits (pause call) (post call) (body call) w [])
    {w : World Env Note}
    {as : List (Interleaving.Action Call ((question : Question) → Answer question) Event)}
    (hFair : Along (Interleaving.step (program body event)) (Fair honest allowed) ⟨w, []⟩ as)
    {l : Running Env Question Answer Note Result Call}
    (hl : l ∈ (final (Interleaving.step (program body event)) ⟨w, []⟩ as).calls) :
    Stands honest permits pause post
      (final (Interleaving.step (program body event)) ⟨w, []⟩ as).shared l :=
  ((meets_outline hEvent hPermits hStable hBody).along trivial as hFair).2 l hl

end Interleaved

section Invariant

variable {inv : World Env Note → Prop} {body : Call → Script Env Question Answer Note Result}
  {event : World Env Note → Event → Env} {allowed : World Env Note → Event → Prop}
  {honest : World Env Note → (question : Question) → Answer question → Prop}

/-- A stretch of a script keeps what each of its notes keeps. -/
theorem settle_invariant (hTell : ∀ w note, inv w → inv (w.tell note))
    (script : Script Env Question Answer Note Result) {w : World Env Note} (h : inv w)
    (log : List Note) : inv (settle w log script).1 := by
  induction script generalizing w log with
  | done result => exact h
  | ask question next => exact h
  | read next ih => exact ih w.env h log
  | tell note next ih => exact ih w.journal.length (hTell w note h) (log ++ [note])

/-- A step of the system keeps what every note and every allowed event keeps. -/
theorem step_invariant (hTell : ∀ w note, inv w → inv (w.tell note))
    (hEvent : ∀ w e, allowed w e → inv w → inv { w with env := event w e })
    (s : Interleaving.System (World Env Note) (Running Env Question Answer Note Result Call))
    (a : Interleaving.Action Call ((question : Question) → Answer question) Event)
    (h : inv s.shared) (hFair : Fair honest allowed s a) :
    inv (Interleaving.step (program body event) s a).1.shared := by
  cases a with
  | start call => exact settle_invariant hTell (body call) h []
  | event e => exact hEvent s.shared e hFair h
  | resume number answers =>
      cases hl : s.calls[number]? with
      | none =>
          rw [Interleaving.step_resume_none hl]
          exact h
      | some l =>
          rw [Interleaving.step_resume_some hl]
          obtain ⟨call, log, script⟩ := l
          cases script with
          | ask question next => exact settle_invariant hTell (next (answers question)) h log
          | done result => exact h
          | read next => exact h
          | tell note next => exact h

/-- An invariant may be relied upon when an answer comes. -/
theorem fair_invariant (hTell : ∀ w note, inv w → inv (w.tell note))
    (hEvent : ∀ w e, allowed w e → inv w → inv { w with env := event w e })
    {w : World Env Note} (hStart : inv w)
    {as : List (Interleaving.Action Call ((question : Question) → Answer question) Event)}
    (hFair : Along (Interleaving.step (program body event)) (Fair honest allowed) ⟨w, []⟩ as) :
    inv (final (Interleaving.step (program body event)) ⟨w, []⟩ as).shared ∧
      Along (Interleaving.step (program body event))
        (Fair (fun w question answer => inv w ∧ honest w question answer) allowed) ⟨w, []⟩ as := by
  have hKeep (s) (a) (h : inv s.shared) (hStep : Fair honest allowed s a) :
      inv (Interleaving.step (program body event) s a).1.shared :=
    step_invariant hTell hEvent s a h hStep
  refine ⟨Execution.invariant_along _ (fun s => inv s.shared) hKeep hStart hFair,
    Execution.along_imp _ (fun s => inv s.shared) hKeep ?_ hStart hFair⟩
  intro s a h hStep
  cases a with
  | start call => trivial
  | event e => exact hStep
  | resume number answers => exact fun l question next hl hAsks => ⟨h, hStep l question next hl hAsks⟩

end Invariant

section Journal

variable {body : Call → Script Env Question Answer Note Result} {event : World Env Note → Event → Env}

/-- Replacing one element of a list by one that contributes more adds just that
to the contributions of the whole, up to their order. -/
theorem perm_flatMap_set {α β : Type} (f : α → List β) {ls : List α} {number : Nat} {l l' : α}
    (hl : ls[number]? = some l) {added : List β} (h : f l' = f l ++ added) :
    ((ls.set number l').flatMap f).Perm (ls.flatMap f ++ added) := by
  induction ls generalizing number with
  | nil => cases hl
  | cons head tail ih =>
      cases number with
      | zero =>
          cases hl
          simp only [List.set_cons_zero, List.flatMap_cons, h, List.append_assoc]
          exact List.perm_append_comm.append_left (f l)
      | succ number =>
          simp only [List.set_cons_succ, List.flatMap_cons, List.append_assoc]
          exact (ih hl).append_left (f head)

/-- What a call writes into the shared journal in a stretch is what it adds to
its own log. -/
theorem resume_written (body : Call → Script Env Question Answer Note Result)
    (event : World Env Note → Event → Env) (w : World Env Note)
    (l : Running Env Question Answer Note Result Call)
    (answers : (question : Question) → Answer question) :
    ∃ written, ((program body event).resume w l answers).shared.journal = w.journal ++ written ∧
      ((program body event).resume w l answers).point.log = l.log ++ written := by
  obtain ⟨call, log, script⟩ := l
  cases script with
  | ask question next =>
      obtain ⟨-, -, written, hJournal, hLog⟩ := settle_written (next (answers question)) w log
      exact ⟨written, hJournal, hLog⟩
  | done result => exact ⟨[], by simp [program]⟩
  | read next => exact ⟨[], by simp [program]⟩
  | tell note next => exact ⟨[], by simp [program]⟩

/-- The journal is a shuffle of the logs: nothing is written that no script
wrote, and nothing is written twice or lost. -/
theorem journal_perm (env : Env)
    (as : List (Interleaving.Action Call ((question : Question) → Answer question) Event)) :
    (final (Interleaving.step (program body event)) ⟨⟨env, []⟩, []⟩ as).shared.journal.Perm
      ((final (Interleaving.step (program body event)) ⟨⟨env, []⟩, []⟩ as).calls.flatMap (·.log)) := by
  refine Execution.invariant (Interleaving.step (program body event))
    (fun s => s.shared.journal.Perm (s.calls.flatMap (·.log))) ?_ ?_ as
  · exact List.Perm.nil
  · intro s a h
    cases a with
    | event e => exact h
    | start call =>
        obtain ⟨-, -, written, hJournal, hLog⟩ := settle_written (body call) s.shared []
        have hStart : ((program body event).start s.shared call).point.log = written := hLog
        show (settle s.shared [] (body call)).1.journal.Perm
          ((s.calls ++ [((program body event).start s.shared call).point]).flatMap (·.log))
        rw [hJournal, List.flatMap_append, List.flatMap_singleton, hStart]
        exact h.append_right written
    | resume number answers =>
        cases hl : s.calls[number]? with
        | none =>
            rw [Interleaving.step_resume_none hl]
            exact h
        | some l =>
            rw [Interleaving.step_resume_some hl]
            obtain ⟨written, hJournal, hLog⟩ := resume_written body event s.shared l answers
            rw [hJournal]
            exact (h.append_right written).trans (perm_flatMap_set (·.log) hl hLog).symm

end Journal

/-- The script asks no more than so many questions. -/
def Bounded : Script Env Question Answer Note Result → Nat → Prop
  | .done _, _ => True
  | .read next, n => ∀ env, (next env).Bounded n
  | .tell _ next, n => ∀ place, (next place).Bounded n
  | .ask _ _, 0 => False
  | .ask _ next, n + 1 => ∀ answer, (next answer).Bounded n

theorem Bounded.mono {script : Script Env Question Answer Note Result} {n m : Nat} (hLe : n ≤ m)
    (h : script.Bounded n) : script.Bounded m := by
  induction script generalizing n m with
  | done result => trivial
  | read next ih => exact fun env => ih env hLe (h env)
  | tell note next ih => exact fun place => ih place hLe (h place)
  | ask question next ih =>
      cases n with
      | zero => exact h.elim
      | succ n =>
          cases m with
          | zero => exact absurd hLe (Nat.not_succ_le_zero n)
          | succ m => exact fun answer => ih answer (Nat.le_of_succ_le_succ hLe) (h answer)

/-- The bounds of two parts in sequence add up. -/
theorem Bounded.bind {script : Script Env Question Answer Note Result}
    {rest : Result → Script Env Question Answer Note Other} {n m : Nat} (h : script.Bounded n)
    (hRest : ∀ result, (rest result).Bounded m) : (script >>= rest).Bounded (n + m) := by
  induction script generalizing n with
  | done result => exact (hRest result).mono (Nat.le_add_left m n)
  | read next ih => exact fun env => ih env (h env)
  | tell note next ih => exact fun place => ih place (h place)
  | ask question next ih =>
      cases n with
      | zero => exact h.elim
      | succ n =>
          rw [Nat.succ_add]
          exact fun answer => ih answer (h answer)

section Commands

variable {Error Failure : Type} {n m : Nat}

/-- The same for parts that may throw. -/
theorem Bounded.bindT {script : ExceptT Error (Script Env Question Answer Note) Result}
    {rest : Result → ExceptT Error (Script Env Question Answer Note) Other}
    (h : script.run.Bounded n) (hRest : ∀ result, (rest result).run.Bounded m) :
    (script >>= rest).run.Bounded (n + m) := by
  rw [ExceptT.run_bind]
  refine h.bind ?_
  intro result
  cases result with
  | ok result => exact hRest result
  | error e => trivial

theorem Bounded.adapt {rename : Error → Failure}
    {script : ExceptT Error (Script Env Question Answer Note) Result} (h : script.run.Bounded n) :
    (script.adapt rename).run.Bounded n := h.bind (m := 0) fun _ => trivial

theorem bounded_await (question : Question) :
    (await question : ExceptT Error (Script Env Question Answer Note) _).run.Bounded 1 :=
  fun _ => trivial

end Commands

/-- What is left of a script after a stretch asks no more than the whole did. -/
theorem Bounded.settle {script : Script Env Question Answer Note Result} {n : Nat}
    (h : script.Bounded n) (w : World Env Note) (log : List Note) :
    (settle w log script).2.2.Bounded n := by
  induction script generalizing w log with
  | done result => exact h
  | ask question next => exact h
  | read next ih => exact ih w.env (h w.env) w log
  | tell note next ih => exact ih w.journal.length (h w.journal.length) (w.tell note) (log ++ [note])

/-- The least such number. -/
noncomputable def remaining (script : Script Env Question Answer Note Result) : Nat :=
  sInf {n | script.Bounded n}

/-- A script that is bounded at all is bounded by what remains of it. -/
theorem bounded_remaining {script : Script Env Question Answer Note Result} {n : Nat}
    (h : script.Bounded n) : script.Bounded script.remaining :=
  Nat.sInf_mem (s := {n | script.Bounded n}) ⟨n, h⟩

/-- No more remains of a script than any bound of it allows. -/
theorem remaining_le {script : Script Env Question Answer Note Result} {n : Nat}
    (h : script.Bounded n) : script.remaining ≤ n := Nat.sInf_le h

/-- An answer is one question less. -/
theorem bounded_resume (body : Call → Script Env Question Answer Note Result)
    (event : World Env Note → Event → Env) (w : World Env Note)
    {l : Running Env Question Answer Note Result Call} (hWaits : l.script.Waits)
    (h : l.script.Bounded l.script.remaining) (answers : (question : Question) → Answer question) :
    ((program body event).resume w l answers).point.script.Waits ∧
      ((program body event).resume w l answers).point.script.Bounded (l.script.remaining - 1) := by
  obtain ⟨call, log, script⟩ := l
  cases script with
  | done result => exact ⟨trivial, trivial⟩
  | read next => exact hWaits.elim
  | tell note next => exact hWaits.elim
  | ask question next =>
      refine ⟨(settle_written (next (answers question)) w log).1, ?_⟩
      cases hLeft : remaining (.ask question next) with
      | zero =>
          rw [hLeft] at h
          exact h.elim
      | succ n =>
          rw [hLeft] at h
          exact (h (answers question)).settle w log

variable {body : Call → Script Env Question Answer Note Result} {event : World Env Note → Event → Env}

/-- A call that waits has ended once it has been answered so many times,
whatever the answers are and whatever else happens. -/
theorem Bounded.ends {n : Nat}
    {s : Interleaving.System (World Env Note) (Running Env Question Answer Note Result Call)}
    {number : Nat} {l : Running Env Question Answer Note Result Call}
    (hl : s.calls[number]? = some l) (hWaits : l.script.Waits) (h : l.script.Bounded n)
    (as : List (Interleaving.Action Call ((question : Question) → Answer question) Event))
    (hAnswered : n ≤ Interleaving.resumes number as) :
    ∃ after result, (final (Interleaving.step (program body event)) s as).calls[number]? =
      some after ∧ after.script = .done result := by
  let good (l : Running Env Question Answer Note Result Call) : Prop :=
    l.script.Waits ∧ l.script.Bounded l.script.remaining
  have hKeep (w l answers) (hGood : good l) : good ((program body event).resume w l answers).point := by
    obtain ⟨hNext, hBounded⟩ := bounded_resume body event w hGood.1 hGood.2 answers
    exact ⟨hNext, bounded_remaining hBounded⟩
  let left (l : Running Env Question Answer Note Result Call) : Nat := l.script.remaining
  have hLess (w l answers) (hGood : good l) :
      left ((program body event).resume w l answers).point ≤ left l - 1 :=
    remaining_le (bounded_resume body event w hGood.1 hGood.2 answers).2
  obtain ⟨⟨call, log, script⟩, hAfter, ⟨hEnded, hBounded⟩, hLeft⟩ :=
    Interleaving.measure_resumes hKeep hLess hl ⟨hWaits, bounded_remaining h⟩ as
  have hZero : script.remaining = 0 := by
    have hLe := remaining_le h
    simp only [left] at hLeft
    omega
  cases script with
  | done result => exact ⟨_, result, hAfter, rfl⟩
  | read next => exact hEnded.elim
  | tell note next => exact hEnded.elim
  | ask question next =>
      simp only [hZero] at hBounded
      exact hBounded.elim

section Alone

variable (answers : (question : Question) → Answer question)

def alone (w : World Env Note) (log : List Note) :
    Script Env Question Answer Note Result → World Env Note × List Note × Result
  | .done result => (w, log, result)
  | .read next => alone w log (next w.env)
  | .tell note next => alone (w.tell note) (log ++ [note]) (next w.journal.length)
  | .ask question next => alone w log (next (answers question))

/-- Two parts in sequence that have the system to themselves run one after the
other. -/
theorem alone_bind (script : Script Env Question Answer Note Result)
    (rest : Result → Script Env Question Answer Note Other) (w : World Env Note) (log : List Note) :
    alone answers w log (script >>= rest) =
      alone answers (alone answers w log script).1 (alone answers w log script).2.1
        (rest (alone answers w log script).2.2) := by
  induction script generalizing w log with
  | done result => rfl
  | read next ih => exact ih w.env w log
  | tell note next ih => exact ih w.journal.length (w.tell note) (log ++ [note])
  | ask question next ih => exact ih (answers question) w log

section Commands

variable {Error Failure : Type} {w w' : World Env Note} {log log' : List Note}

/-- The same for parts that may throw, if the first one returns. -/
theorem alone_bind_ok {script : ExceptT Error (Script Env Question Answer Note) Result}
    {rest : Result → ExceptT Error (Script Env Question Answer Note) Other} {result : Result}
    (h : alone answers w log script.run = (w', log', .ok result)) :
    alone answers w log (script >>= rest).run = alone answers w' log' (rest result).run := by
  rw [ExceptT.run_bind, alone_bind, h]

/-- If the first of two parts throws, the second is skipped and the error is
that of the whole. -/
theorem alone_bind_error {script : ExceptT Error (Script Env Question Answer Note) Result}
    {rest : Result → ExceptT Error (Script Env Question Answer Note) Other} {e : Error}
    (h : alone answers w log script.run = (w', log', .error e)) :
    alone answers w log (script >>= rest).run = (w', log', .error e) := by
  rw [ExceptT.run_bind, alone_bind, h]
  rfl

/-- A script that only asks is the composition of what its parts come to. -/
theorem alone_bind_quiet {script : ExceptT Error (Script Env Question Answer Note) Result}
    {rest : Result → ExceptT Error (Script Env Question Answer Note) Other}
    {result : Except Error Result} {then' : Result → Except Error Other}
    (h : alone answers w log script.run = (w, log, result))
    (hRest : ∀ r, alone answers w log (rest r).run = (w, log, then' r)) :
    alone answers w log (script >>= rest).run = (w, log, result >>= then') := by
  cases result with
  | ok r => exact (alone_bind_ok answers h).trans (hRest r)
  | error e => exact alone_bind_error answers h

theorem alone_adapt {script : ExceptT Error (Script Env Question Answer Note) Result}
    {rename : Error → Failure} {result : Except Error Result}
    (h : alone answers w log script.run = (w', log', result)) :
    alone answers w log (script.adapt rename).run = (w', log', result.mapError rename) := by
  show alone answers w log (script.run >>= _) = _
  rw [alone_bind, h]
  cases result with
  | ok result => rfl
  | error e => rfl

end Commands

/-- A call that is answered and otherwise left alone gets there. -/
theorem alone_reached {script : Script Env Question Answer Note Result} {w : World Env Note}
    {log : List Note}
    {s : Interleaving.System (World Env Note) (Running Env Question Answer Note Result Call)}
    {number : Nat} {call : Call} (hShared : s.shared = (settle w log script).1)
    (hCall : s.calls[number]? =
      some ⟨call, (settle w log script).2.1, (settle w log script).2.2⟩) :
    ∃ count, final (Interleaving.step (program body event)) s
        (List.replicate count (.resume number answers)) =
      ⟨(alone answers w log script).1, s.calls.set number ⟨call, (alone answers w log script).2.1,
        .done (alone answers w log script).2.2⟩⟩ := by
  induction script generalizing w log s with
  | done result =>
      refine ⟨0, ?_⟩
      obtain ⟨hBound, hAt⟩ := List.getElem?_eq_some_iff.mp hCall
      obtain ⟨shared, calls⟩ := s
      simp only [settle] at hShared hAt
      simp only [List.replicate_zero, final_nil, alone, hShared, ← hAt, List.set_getElem_self]
  | read next ih => exact ih w.env hShared hCall
  | tell note next ih => exact ih w.journal.length hShared hCall
  | ask question next ih =>
      have hStep := Interleaving.step_resume_some (P := program body event) hCall answers
      obtain ⟨hBound, -⟩ := List.getElem?_eq_some_iff.mp hCall
      have hNext : (Interleaving.step (program body event) s (.resume number answers)).1.shared =
          (settle w log (next (answers question))).1 := by
        rw [hStep, hShared]
        rfl
      have hPoint :
          (Interleaving.step (program body event) s (.resume number answers)).1.calls[number]? =
            some ⟨call, (settle w log (next (answers question))).2.1,
              (settle w log (next (answers question))).2.2⟩ := by
        rw [hStep, hShared]
        exact List.getElem?_set_self hBound
      obtain ⟨count, hCount⟩ := ih (answers question) hNext hPoint
      refine ⟨count + 1, ?_⟩
      rw [List.replicate_succ, final, hCount, hStep]
      simp only [List.set_set, alone]

end Alone

end Script
