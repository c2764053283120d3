import StellarTimelock.Client.Replay
import StellarTimelock.Semantics.StableSort

/-! The replay of one vault, in terms of its events: which of them are folded,
and what each field of the accumulator says of them. -/
namespace SorobanClient

open StableSort FloatingPoint

/-- The events of a vault that the replay folds, before it sorts them. -/
def vaultEvents (events : List ParsedEvent) (owner id : String) : List ParsedEvent :=
  (events.filter fun e => e.ownerPublicKey = owner).filter fun e => e.vaultId = id

/-- The events of a vault in the order of the fold, from the `create` event that
seeds its accumulator on. What is sorted before that event is lost. -/
def seeded (events : List ParsedEvent) (owner id : String) : List ParsedEvent :=
  ((vaultEvents events owner id).insertionSort fun a b => a.timestamp ≤ b.timestamp).dropWhile
    fun e => e.kind ≠ .create

def withdraws (events : List ParsedEvent) : Bool := events.any fun e => e.kind = .withdraw

/-- The amounts that events put into a vault, in their order. -/
def payments (events : List ParsedEvent) : List Rat :=
  (events.filter fun e => e.kind = .create ∨ e.kind = .deposit).map (·.amount)

/-- The amounts that events put into a vault as the client adds them up. -/
def paid [Arithmetic] (events : List ParsedEvent) : Rat :=
  Arithmetic.sumFrom 0 (payments events)

/-- The later of a day and the days that the notes of `extend` events name. -/
def latestFrom (day : Int) (events : List ParsedEvent) : Int :=
  (events.filter fun e => e.kind = .extend).foldl (fun day e => max day (dateNoteToSec e.note)) day

/-- The latest day that the notes of a vault's events name. -/
def lastDay : List ParsedEvent → Int
  | [] => 0
  | created :: later => latestFrom (dateNoteToSec created.note) later

theorem withdraws_iff {events : List ParsedEvent} :
    withdraws events = true ↔ ∃ e ∈ events, e.kind = .withdraw := by
  simp [withdraws]

/-- Whether a vault is withdrawn does not depend on the order of its events, as
nothing undoes a withdrawal in the replay. -/
theorem withdraws_perm {first second : List ParsedEvent} (h : first.Perm second) :
    withdraws first = withdraws second :=
  h.any_eq

theorem payments_cons (e : ParsedEvent) (events : List ParsedEvent) : payments (e :: events) =
    if e.kind = .create ∨ e.kind = .deposit then e.amount :: payments events
    else payments events := by
  unfold payments
  split_ifs with hKind
  · rw [List.filter_cons_of_pos (by simpa using hKind), List.map_cons]
  · rw [List.filter_cons_of_neg (by simpa using hKind)]

theorem payments_append (first second : List ParsedEvent) :
    payments (first ++ second) = payments first ++ payments second := by
  unfold payments
  rw [List.filter_append, List.map_append]

theorem mem_payments {events : List ParsedEvent} {amount : Rat} :
    amount ∈ payments events ↔
      ∃ e ∈ events, (e.kind = .create ∨ e.kind = .deposit) ∧ e.amount = amount := by
  unfold payments
  simp only [List.mem_map, List.mem_filter, decide_eq_true_eq, and_assoc]

/-- The amounts paid in are the same in every order; only their sum, which is
rounded at every step, is not. -/
theorem payments_perm {first second : List ParsedEvent} (h : first.Perm second) :
    (payments first).Perm (payments second) :=
  (h.filter _).map _

instance : Std.Total fun a b : ParsedEvent => a.timestamp ≤ b.timestamp where
  total _ _ := Int.le_total _ _

instance : IsTrans ParsedEvent fun a b => a.timestamp ≤ b.timestamp where
  trans _ _ _ := Int.le_trans

section Fold

variable [Arithmetic]

/-- One round of the replay, for the vault of the event. -/
def nextAccum : Option Accum → ParsedEvent → Option Accum
  | some v, ev => some (v.apply ev)
  | none, ev => if ev.kind = .create then some ((Accum.seed ev).apply ev) else none

/-- A lookup after an event has been applied to the accumulator of its vault. -/
theorem find?_map_apply (byId : List Accum) (ev : ParsedEvent) (id : String) :
    (byId.map fun v => if v.vaultId = ev.vaultId then v.apply ev else v).find?
        (fun v => v.vaultId = id) =
      (byId.find? fun v => v.vaultId = id).map fun v =>
        if id = ev.vaultId then v.apply ev else v := by
  rw [List.find?_map]
  have hTest : ((fun v : Accum => decide (v.vaultId = id)) ∘ fun v : Accum =>
      if v.vaultId = ev.vaultId then v.apply ev else v) =
        fun v : Accum => decide (v.vaultId = id) := by
    funext v
    simp only [Function.comp_apply]
    split_ifs <;> simp
  rw [hTest]
  cases hFound : byId.find? fun v => v.vaultId = id with
  | none => rfl
  | some v =>
      have hId : v.vaultId = id := by simpa using List.find?_some hFound
      rw [Option.map_some, Option.map_some, hId]

/-- One round of the replay changes the accumulator of the event's vault and no
other. -/
theorem find?_replayEvent (byId : List Accum) (ev : ParsedEvent) (id : String) :
    (replayEvent byId ev).find? (fun v => v.vaultId = id) =
      if ev.vaultId = id then nextAccum (byId.find? fun v => v.vaultId = id) ev
      else byId.find? fun v => v.vaultId = id := by
  unfold replayEvent
  by_cases hKnown : byId.any (fun v => v.vaultId = ev.vaultId) = true
  · rw [if_pos hKnown, find?_map_apply]
    by_cases hOwn : ev.vaultId = id
    · subst hOwn
      have hSome : (byId.find? fun v => v.vaultId = ev.vaultId).isSome = true := by
        rw [List.find?_isSome]
        simpa using hKnown
      obtain ⟨v, hFound⟩ := Option.isSome_iff_exists.mp hSome
      rw [hFound, if_pos rfl, Option.map_some, if_pos rfl]
      rfl
    · rw [if_neg hOwn]
      cases byId.find? fun v => v.vaultId = id with
      | none => rfl
      | some v => rw [Option.map_some, if_neg (Ne.symm hOwn)]
  · have hNone : byId.find? (fun v => v.vaultId = ev.vaultId) = none := by
      rw [List.find?_eq_none]
      simpa using hKnown
    rw [if_neg hKnown]
    by_cases hOwn : ev.vaultId = id
    · subst hOwn
      rw [if_pos rfl, hNone]
      by_cases hCreate : ev.kind = .create
      · rw [if_pos hCreate, List.find?_append, hNone, nextAccum, if_pos hCreate]
        simp [Accum.seed]
      · rw [if_neg hCreate, hNone, nextAccum, if_neg hCreate]
    · rw [if_neg hOwn]
      split_ifs with hCreate
      · rw [List.find?_append]
        simp [Accum.seed, hOwn]
      · rfl

/-- The accumulator of a vault is the fold of its own events. -/
theorem find?_foldl (events : List ParsedEvent) (byId : List Accum) (id : String) :
    (events.foldl replayEvent byId).find? (fun v => v.vaultId = id) =
      (events.filter fun e => e.vaultId = id).foldl nextAccum
        (byId.find? fun v => v.vaultId = id) := by
  induction events generalizing byId with
  | nil => rfl
  | cons ev events ih =>
      rw [List.foldl_cons, ih, find?_replayEvent]
      by_cases hOwn : ev.vaultId = id
      · rw [if_pos hOwn, List.filter_cons_of_pos (by simpa using hOwn), List.foldl_cons]
      · rw [if_neg hOwn, List.filter_cons_of_neg (by simpa using hOwn)]

/-- Vaults do not meet in the replay: each is the sorted fold of its events. -/
theorem find?_replay (events : List ParsedEvent) (owner id : String) :
    (replay events owner).find? (fun v => v.vaultId = id) =
      ((vaultEvents events owner id).insertionSort fun a b => a.timestamp ≤ b.timestamp).foldl
        nextAccum none := by
  unfold replay vaultEvents
  rw [find?_foldl, filter_insertionSort]
  rfl

/-- Once a vault has an accumulator, every further event of it is applied to
that. -/
theorem foldl_nextAccum_some (events : List ParsedEvent) (v : Accum) :
    events.foldl nextAccum (some v) = some (events.foldl Accum.apply v) := by
  induction events generalizing v with
  | nil => rfl
  | cons ev events ih => exact ih (v.apply ev)

/-- The accumulator that a `create` event and the events after it leave. -/
def accumAfter (c : ParsedEvent) (events : List ParsedEvent) : Accum :=
  events.foldl Accum.apply ((Accum.seed c).apply c)

/-- The accumulator of a vault, if an event seeds one. -/
def seededAccum : List ParsedEvent → Option Accum
  | [] => none
  | created :: later => some (accumAfter created later)

/-- What is folded before the first `create` event is lost. -/
theorem foldl_nextAccum_none (events : List ParsedEvent) :
    events.foldl nextAccum none = seededAccum (events.dropWhile fun e => e.kind ≠ .create) := by
  induction events with
  | nil => rfl
  | cons ev events ih =>
      rw [List.foldl_cons, nextAccum]
      by_cases hCreate : ev.kind = .create
      · rw [if_pos hCreate, List.dropWhile_cons_of_neg (by simpa using hCreate)]
        exact foldl_nextAccum_some events _
      · rw [if_neg hCreate, List.dropWhile_cons_of_pos (by simpa using hCreate)]
        exact ih

/-- The accumulator of a vault is that of the events from its `create` event on. -/
theorem find?_replay_seeded (events : List ParsedEvent) (owner id : String) :
    (replay events owner).find? (fun v => v.vaultId = id) =
      seededAccum (seeded events owner id) := by
  rw [find?_replay, foldl_nextAccum_none]
  rfl

end Fold

/-- The events that the replay folds for a vault begin with its `create` event. -/
theorem seeded_head {events later : List ParsedEvent} {owner id : String} {c : ParsedEvent}
    (h : seeded events owner id = c :: later) : c.kind = .create ∧ c.vaultId = id := by
  constructor
  · have hFirst := List.head?_dropWhile_not (fun e : ParsedEvent => decide (e.kind ≠ .create))
      ((vaultEvents events owner id).insertionSort fun a b => a.timestamp ≤ b.timestamp)
    unfold seeded at h
    rw [h] at hFirst
    simpa using hFirst
  · have hMem : c ∈ seeded events owner id := by
      rw [h]
      exact List.mem_cons_self
    have hSorted := (List.dropWhile_sublist _).subset hMem
    have hOwn := List.mem_filter.mp ((List.mem_insertionSort _).mp hSorted)
    exact of_decide_eq_true hOwn.2

section Fields

variable [Arithmetic]

theorem foldl_apply_vaultId (events : List ParsedEvent) (v : Accum) :
    (events.foldl Accum.apply v).vaultId = v.vaultId := by
  induction events generalizing v with
  | nil => rfl
  | cons ev events ih => rw [List.foldl_cons, ih, Accum.apply_vaultId]

theorem foldl_apply_created (events : List ParsedEvent) (v : Accum) :
    (events.foldl Accum.apply v).createdTimestamp = v.createdTimestamp := by
  induction events generalizing v with
  | nil => rfl
  | cons ev events ih =>
      rw [List.foldl_cons, ih]
      unfold Accum.apply
      cases ev.kind with
      | extend =>
          simp only
          split_ifs <;> rfl
      | create => rfl
      | deposit => rfl
      | withdraw => rfl

/-- A vault is withdrawn once one of its events says so. -/
theorem foldl_apply_withdrawn (events : List ParsedEvent) (v : Accum) :
    (events.foldl Accum.apply v).withdrawn = (v.withdrawn || withdraws events) := by
  induction events generalizing v with
  | nil => simp [withdraws]
  | cons ev events ih =>
      rw [List.foldl_cons, ih]
      unfold Accum.apply withdraws
      cases hKind : ev.kind with
      | extend =>
          simp only
          split_ifs <;> simp [hKind]
      | create => simp [hKind]
      | deposit => simp [hKind]
      | withdraw => simp [hKind]

/-- As long as nothing is withdrawn, the payments are added up in their order. -/
theorem foldl_apply_balance {events : List ParsedEvent} (hStay : withdraws events = false)
    (v : Accum) : (events.foldl Accum.apply v).balanceXlm =
      Arithmetic.sumFrom v.balanceXlm (payments events) := by
  induction events generalizing v with
  | nil => rfl
  | cons ev events ih =>
      obtain ⟨hFirst, hRest⟩ := Bool.or_eq_false_iff.mp hStay
      rw [List.foldl_cons, ih hRest, payments_cons]
      unfold Accum.apply
      cases hKind : ev.kind with
      | extend =>
          simp only
          split_ifs <;> simp_all
      | create => simp [Arithmetic.sumFrom]
      | deposit => simp [Arithmetic.sumFrom]
      | withdraw => simp [hKind] at hFirst

/-- The unlock time only moves to later days. -/
theorem foldl_apply_unlock (events : List ParsedEvent) (v : Accum) :
    (events.foldl Accum.apply v).unlockTimestamp = latestFrom v.unlockTimestamp events := by
  induction events generalizing v with
  | nil => rfl
  | cons ev events ih =>
      rw [List.foldl_cons, ih]
      unfold Accum.apply latestFrom
      cases hKind : ev.kind with
      | extend =>
          have hMax : max v.unlockTimestamp (dateNoteToSec ev.note) =
              if v.unlockTimestamp < dateNoteToSec ev.note then dateNoteToSec ev.note
              else v.unlockTimestamp := by
            split_ifs <;> omega
          rw [List.filter_cons_of_pos (by simpa using hKind), List.foldl_cons, hMax]
          simp only
          split_ifs <;> rfl
      | create => simp [hKind]
      | deposit => simp [hKind]
      | withdraw => simp [hKind]

section After

variable (c : ParsedEvent) (later : List ParsedEvent)

theorem accumAfter_vaultId : (accumAfter c later).vaultId = c.vaultId := by
  unfold accumAfter
  rw [foldl_apply_vaultId, Accum.apply_vaultId]
  rfl

variable {c} (hCreate : c.kind = .create)

include hCreate

theorem accumAfter_created : (accumAfter c later).createdTimestamp = c.timestamp := by
  unfold accumAfter
  rw [foldl_apply_created, Accum.apply, hCreate]
  rfl

/-- The accumulator is withdrawn if one of the events is a withdrawal. -/
theorem accumAfter_withdrawn : (accumAfter c later).withdrawn = withdraws (c :: later) := by
  unfold accumAfter
  rw [foldl_apply_withdrawn, Accum.apply, hCreate]
  simp [withdraws, hCreate, Accum.seed]

/-- The accumulator has the latest of the days that the notes name, the first if
none is later. -/
theorem accumAfter_unlock : (accumAfter c later).unlockTimestamp = lastDay (c :: later) := by
  unfold accumAfter
  rw [foldl_apply_unlock, Accum.apply, hCreate]
  rfl

/-- Without a withdrawal the accumulator has the sum of all payments, added up
in their order. -/
theorem accumAfter_balance (hStay : withdraws (c :: later) = false) :
    (accumAfter c later).balanceXlm = paid (c :: later) := by
  have hLater : withdraws later = false := (Bool.or_eq_false_iff.mp hStay).2
  unfold accumAfter paid
  rw [foldl_apply_balance hLater, payments_cons, if_pos (Or.inl hCreate), Accum.apply, hCreate]
  rfl

end After

end Fields

end SorobanClient
