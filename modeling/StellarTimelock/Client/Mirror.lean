import StellarTimelock.Client.Replay
import Mathlib.Tactic.Ring

/-! The replay refines the contract: after every run whose event stream parses,
the accumulators of an owner are the stored vaults of that owner, except that
an unlock time is known only as the latest day announced for it. -/
namespace SorobanClient

open XlmVault Execution Calendar Transaction FloatingPoint

variable {Address : Type} {contract : Address}

/-- The event stream of a history, in the order of emission. -/
def emitted (past : List (Observation contract)) : List (EventResponse Address) :=
  (receipts past).flatMap fun r => r.events.map fun e => ⟨e, r.timestamp⟩

/-- The unlock time a successful call publishes for a vault. -/
def announces (id : UInt64) (r : Receipt Address) : Option UInt64 :=
  match r.call, r.result with
  | .createVault _ _ _ u, .ok (.id k) => if k = id then some u else none
  | .extendLock _ k _, .ok (.unlock u) => if k = id then some u else none
  | _, _ => none

/-- All unlock times published for a vault, oldest first. -/
def announced (past : List (Receipt Address)) (id : UInt64) : List UInt64 :=
  past.filterMap (announces id)

/-- The latest unlock time the replay has understood, 0 before any. -/
def latestShown (past : List (Receipt Address)) (id : UInt64) : Int :=
  (announced past id).foldl (fun latest u => max latest (shownUnlock u)) 0

/-- The amount a successful call pays into a vault. -/
def pays (id : UInt64) (r : Receipt Address) : Option Int :=
  match r.call, r.result with
  | .createVault _ _ initialDeposit _, .ok (.id k) => if k = id then some initialDeposit.val else none
  | .deposit _ k amount, .ok _ => if k = id then some amount.val else none
  | _, _ => none

/-- All amounts paid into a vault, oldest first, in stroops. -/
def paidIn (past : List (Receipt Address)) (id : UInt64) : List Int :=
  past.filterMap (pays id)

/-- The amounts paid into a vault as the replay adds them up, in XLM and in the
order of emission. -/
def tally [Arithmetic] (past : List (Receipt Address)) (id : UInt64) : Rat :=
  Arithmetic.sumFrom 0 ((paidIn past id).map stroopsToXlm)

/-- What the replay should know of a vault. -/
def accumOf [Arithmetic] (past : List (Receipt Address)) (s : Storage Address) (id : UInt64) :
    Accum where
  vaultId := idText id
  balanceXlm := if (s.vault id).elim false (·.withdrawn) then 0 else tally past id
  unlockTimestamp := latestShown past id
  createdTimestamp := (s.vault id).elim 0 (·.createdTimestamp.toNat)
  withdrawn := (s.vault id).elim false (·.withdrawn)

/-- The events of one owner. -/
def eventsOf (key : StrKey Address) (owner : Address) (events : List ParsedEvent) :
    List ParsedEvent :=
  events.filter fun e => e.ownerPublicKey = key.encode owner

/-- A parsed stream in causal order that folds to the stored vaults. -/
structure Mirrors [Arithmetic] (key : StrKey Address) (past : List (Receipt Address)) (w : World Address)
    (events : List ParsedEvent) : Prop where
  sorted : events.Pairwise fun a b => a.timestamp ≤ b.timestamp
  recent : ∀ e ∈ events, e.timestamp ≤ w.now.toNat
  folds : ∀ owner, (eventsOf key owner events).foldl replayEvent [] =
    (w.storage.listOwned owner).map (accumOf past w.storage)

/-- What the replay has accumulated for a stored vault: zero if it has been
withdrawn, else the sum of what was paid in, with the latest of the announced
dates. -/
theorem accumOf_stored [Arithmetic] {past : List (Receipt Address)} {s : Storage Address}
    {id : UInt64} {v : XlmVault.Vault Address} (h : s.vault id = some v) :
    accumOf past s id = ⟨idText id, if v.withdrawn then 0 else tally past id, latestShown past id,
      v.createdTimestamp.toNat, v.withdrawn⟩ := by
  unfold accumOf
  rw [h]
  rfl

theorem emitted_append (first second : List (Observation contract)) :
    emitted (first ++ second) = emitted first ++ emitted second := by
  simp [emitted, receipts]

section Announced

variable {past : List (Receipt Address)} {r : Receipt Address} {id : UInt64}

theorem announced_append (first second : List (Receipt Address)) (id : UInt64) :
    announced (first ++ second) id = announced first id ++ announced second id :=
  List.filterMap_append

/-- One more receipt adds the date that it announces for the vault, if it
announces one. -/
theorem announced_concat : announced (past ++ [r]) id = announced past id ++ (announces id r).toList := by
  have hOne : announced [r] id = (announces id r).toList := by
    unfold announced
    cases h : announces id r <;> simp [h]
  rw [announced_append, hOne]

/-- An announced date moves the latest shown one forward or leaves it, never
back. -/
theorem latestShown_concat_some {u : UInt64} (h : announces id r = some u) :
    latestShown (past ++ [r]) id = max (latestShown past id) (shownUnlock u) := by
  unfold latestShown
  rw [announced_concat, h, List.foldl_append]
  rfl

/-- A receipt that announces no date for the vault leaves the latest shown one.
-/
theorem latestShown_concat_none (h : announces id r = none) :
    latestShown (past ++ [r]) id = latestShown past id := by
  unfold latestShown
  rw [announced_concat, h]
  simp

theorem latestShown_of_unannounced (h : announced past id = []) : latestShown past id = 0 := by
  unfold latestShown
  rw [h]
  rfl

/-- The latest date of a list is within a bound if and only if all of them are,
and the value that it started from. -/
theorem foldl_max_le_iff (us : List UInt64) (start bound : Int) :
    us.foldl (fun latest u => max latest (shownUnlock u)) start ≤ bound ↔
      start ≤ bound ∧ ∀ u ∈ us, shownUnlock u ≤ bound := by
  induction us generalizing start with
  | nil => simp
  | cons u us ih =>
      rw [List.foldl_cons, ih, List.forall_mem_cons, Int.max_le, and_assoc]

/-- The replay shows a vault as due once every announced time it understood
has come. -/
theorem latestShown_le_iff {bound : Int} (h : 0 ≤ bound) :
    latestShown past id ≤ bound ↔ ∀ u ∈ announced past id, shownUnlock u ≤ bound := by
  unfold latestShown
  rw [foldl_max_le_iff]
  exact and_iff_right h

end Announced

section PaidIn

variable {past : List (Receipt Address)} {r : Receipt Address} {id : UInt64}

/-- One more receipt adds the amount that it pays into the vault, if it pays
any. -/
theorem paidIn_concat : paidIn (past ++ [r]) id = paidIn past id ++ (pays id r).toList := by
  unfold paidIn
  rw [List.filterMap_append]
  cases h : pays id r <;> simp [h]

/-- A call that pays nothing into a vault leaves what has been added up for it. -/
theorem paidIn_concat_none (h : pays id r = none) : paidIn (past ++ [r]) id = paidIn past id := by
  rw [paidIn_concat, h]
  exact List.append_nil _

/-- A receipt that pays nothing into the vault leaves its tally. -/
theorem tally_concat_none [Arithmetic] (h : pays id r = none) :
    tally (past ++ [r]) id = tally past id := by
  unfold tally
  rw [paidIn_concat_none h]

/-- A further payment is one more addition at the end of the tally, in the
arithmetic of the replay and in the order of the payments. -/
theorem tally_concat_some [Arithmetic] {amount : Int} (h : pays id r = some amount) :
    tally (past ++ [r]) id = Arithmetic.add (tally past id) (stroopsToXlm amount) := by
  unfold tally Arithmetic.sumFrom
  rw [paidIn_concat, h, List.map_append, List.foldl_append]
  rfl

theorem tally_of_unpaid [Arithmetic] (h : paidIn past id = []) : tally past id = 0 := by
  unfold tally
  rw [h]
  rfl

end PaidIn

/-- One more event is one more of the owner's if it bears the owner's name, and
none otherwise. -/
theorem eventsOf_concat (key : StrKey Address) (owner : Address) (events : List ParsedEvent)
    (e : ParsedEvent) : eventsOf key owner (events ++ [e]) =
      eventsOf key owner events ++ if e.ownerPublicKey = key.encode owner then [e] else [] := by
  unfold eventsOf
  rw [List.filter_append]
  split_ifs with h <;> simp [h]

section Replay

variable [Arithmetic]

/-- An `extend` event raises the unlock time to what its note is read as. -/
theorem extend_apply (v : Accum) (vaultId owner : String) (amount : Rat) (time : Int) (u : UInt64) :
    v.apply ⟨vaultId, owner, .extend, amount, "new unlock " ++ unlockDay u, time⟩ =
      { v with unlockTimestamp := max v.unlockTimestamp (shownUnlock u) } := by
  unfold Accum.apply
  simp only
  rw [dateNoteToSec_unlockDay (by decide)]
  split_ifs with hLater
  · rw [Int.max_eq_right (Int.le_of_lt hLater)]
  · rw [Int.max_eq_left (Int.not_lt.mp hLater)]

/-- An event of a known vault is applied to its accumulator alone. -/
theorem replayEvent_known {past : List (Receipt Address)} {s : Storage Address} {ids : List UInt64}
    {id : UInt64} {e : ParsedEvent} (hId : e.vaultId = idText id) (hMem : id ∈ ids) :
    replayEvent (ids.map (accumOf past s)) e =
      ids.map fun k => if k = id then (accumOf past s k).apply e else accumOf past s k := by
  have hKnown : (ids.map (accumOf past s)).any (fun v => v.vaultId = e.vaultId) = true := by
    rw [List.any_eq_true]
    refine ⟨accumOf past s id, List.mem_map_of_mem hMem, ?_⟩
    rw [hId]
    exact decide_eq_true rfl
  unfold replayEvent
  rw [if_pos hKnown, List.map_map]
  apply List.map_congr_left
  intro k _
  show (if idText k = e.vaultId then _ else _) = _
  rw [hId]
  by_cases hk : k = id
  · rw [if_pos (congrArg idText hk), if_pos hk]
  · rw [if_neg (fun hEq => hk (idText_injective hEq)), if_neg hk]

/-- A `create` event of a new vault appends its accumulator. -/
theorem replayEvent_new {past : List (Receipt Address)} {s : Storage Address} {ids : List UInt64}
    {id : UInt64} {e : ParsedEvent} (hId : e.vaultId = idText id) (hNew : id ∉ ids)
    (hKind : e.kind = .create) :
    replayEvent (ids.map (accumOf past s)) e =
      ids.map (accumOf past s) ++ [(Accum.seed e).apply e] := by
  have hUnknown : ¬ (ids.map (accumOf past s)).any (fun v => v.vaultId = e.vaultId) = true := by
    rw [List.any_eq_true]
    rintro ⟨v, hv, hSame⟩
    obtain ⟨k, hk, rfl⟩ := List.mem_map.mp hv
    have hText : idText k = idText id := (of_decide_eq_true hSame).trans hId
    rw [idText_injective hText] at hk
    exact hNew hk
  unfold replayEvent
  rw [if_neg hUnknown, if_pos hKind]

namespace Mirrors

variable {key : StrKey Address} {past past' : List (Receipt Address)} {w w' : World Address}
  {events : List ParsedEvent}

/-- A step that emits nothing and changes no accumulator keeps the replay and
the storage in step. -/
theorem quiet (h : Mirrors key past w events) (hNow : w.now ≤ w'.now)
    (hOwned : ∀ a, w'.storage.listOwned a = w.storage.listOwned a)
    (hAccum : ∀ k, accumOf past' w'.storage k = accumOf past w.storage k) :
    Mirrors key past' w' events where
  sorted := h.sorted
  recent e he := by
    have hOld := h.recent e he
    have hLe := UInt64.le_iff_toNat_le.mp hNow
    omega
  folds owner := by
    rw [h.folds, hOwned]
    exact List.map_congr_left fun k _ => (hAccum k).symm

/-- An event of the present ledger comes after all earlier ones in time, so the
list stays sorted. -/
theorem sorted_concat (h : Mirrors key past w events) {e : ParsedEvent}
    (hTime : e.timestamp = w.now.toNat) :
    (events ++ [e]).Pairwise fun a b => a.timestamp ≤ b.timestamp := by
  rw [List.pairwise_append]
  refine ⟨h.sorted, List.pairwise_singleton _ _, ?_⟩
  intro a ha b hb
  rw [List.mem_singleton.mp hb, hTime]
  exact h.recent a ha

/-- And no event is later than the present. -/
theorem recent_concat (h : Mirrors key past w events) {e : ParsedEvent}
    (hTime : e.timestamp = w.now.toNat) (hNow : w'.now = w.now) :
    ∀ b ∈ events ++ [e], b.timestamp ≤ w'.now.toNat := by
  intro b hb
  rw [hNow]
  rcases List.mem_append.mp hb with hb | hb
  · exact h.recent b hb
  · rw [List.mem_singleton.mp hb, hTime]

/-- An event of a stored vault that changes its accumulator as the vault. -/
theorem update (h : Mirrors key past w events) (hAllocated : Allocated w.storage)
    {id : UInt64} {v : XlmVault.Vault Address} {e : ParsedEvent}
    (hVault : w.storage.vault id = some v) (hId : e.vaultId = idText id)
    (hOwner : e.ownerPublicKey = key.encode v.owner) (hTime : e.timestamp = w.now.toNat)
    (hNow : w'.now = w.now) (hOwned : ∀ a, w'.storage.listOwned a = w.storage.listOwned a)
    (hSame : ∀ k, k ≠ id → accumOf past' w'.storage k = accumOf past w.storage k)
    (hChanged : accumOf past' w'.storage id = (accumOf past w.storage id).apply e) :
    Mirrors key past' w' (events ++ [e]) where
  sorted := h.sorted_concat hTime
  recent := h.recent_concat hTime hNow
  folds owner := by
    rw [eventsOf_concat, List.foldl_append, h.folds, hOwned, hOwner]
    by_cases hMine : v.owner = owner
    · have hMem : id ∈ w.storage.listOwned owner := (hAllocated.indexed owner id).mpr ⟨v, hVault, hMine⟩
      rw [if_pos (congrArg key.encode hMine), List.foldl_cons, List.foldl_nil,
        replayEvent_known hId hMem]
      apply List.map_congr_left
      intro k _
      by_cases hk : k = id
      · rw [if_pos hk, hk, hChanged]
      · rw [if_neg hk, hSame k hk]
    · rw [if_neg (fun hSame => hMine (key.injective hSame)), List.foldl_nil]
      apply List.map_congr_left
      intro k hk
      have hOther : k ≠ id := by
        rintro rfl
        obtain ⟨u, hu, hOwns⟩ := (hAllocated.indexed owner k).mp hk
        cases hVault.symm.trans hu
        exact hMine hOwns
      rw [hSame k hOther]

/-- The event of a new vault appends its accumulator to the rows of its creator
and leaves all other rows alone, so the replay mirrors the storage again. -/
theorem create (h : Mirrors key past w events) (hAllocated : Allocated w.storage)
    {id : UInt64} {creator : Address} {e : ParsedEvent} (hFresh : w.storage.vault id = none)
    (hKind : e.kind = .create) (hId : e.vaultId = idText id)
    (hOwner : e.ownerPublicKey = key.encode creator) (hTime : e.timestamp = w.now.toNat)
    (hNow : w'.now = w.now)
    (hOwned : w'.storage.listOwned creator = w.storage.listOwned creator ++ [id])
    (hOthers : ∀ a, a ≠ creator → w'.storage.listOwned a = w.storage.listOwned a)
    (hSame : ∀ k, k ≠ id → accumOf past' w'.storage k = accumOf past w.storage k)
    (hNew : accumOf past' w'.storage id = (Accum.seed e).apply e) :
    Mirrors key past' w' (events ++ [e]) where
  sorted := h.sorted_concat hTime
  recent := h.recent_concat hTime hNow
  folds owner := by
    have hUnused (a : Address) : id ∉ w.storage.listOwned a := by
      intro hMem
      obtain ⟨u, hu, _⟩ := (hAllocated.indexed a id).mp hMem
      cases hFresh.symm.trans hu
    have hKept : (w.storage.listOwned owner).map (accumOf past w.storage) =
        (w.storage.listOwned owner).map (accumOf past' w'.storage) := by
      apply List.map_congr_left
      intro k hk
      have hOther : k ≠ id := by
        rintro rfl
        exact hUnused owner hk
      exact (hSame k hOther).symm
    rw [eventsOf_concat, List.foldl_append, h.folds, hOwner]
    by_cases hMine : creator = owner
    · subst hMine
      rw [if_pos rfl, List.foldl_cons, List.foldl_nil,
        replayEvent_new hId (hUnused creator) hKind, hOwned, List.map_append, hKept, ← hNew]
      rfl
    · rw [if_neg (fun hEq => hMine (key.injective hEq)), List.foldl_nil, hKept,
        hOthers owner (fun hEq => hMine hEq.symm)]

/-- On a stream in causal order the sort of the replay changes nothing. -/
theorem replay_eq (h : Mirrors key past w events) (owner : Address) :
    replay events (key.encode owner) =
      (w.storage.listOwned owner).map (accumOf past w.storage) := by
  have hSorted : (eventsOf key owner events).Pairwise fun a b => a.timestamp ≤ b.timestamp :=
    h.sorted.sublist List.filter_sublist
  unfold replay
  rw [← h.folds owner]
  exact congrArg (List.foldl replayEvent []) hSorted.insertionSort_eq

end Mirrors

end Replay

/-- After a vault is written, only other keys are unused. -/
theorem unused_of_written (w : World Address) (id : UInt64) (v : XlmVault.Vault Address) :
    ∀ k, (w.putVault id v).storage.vault k = none → k ≠ id ∧ w.storage.vault k = none := by
  intro k hNone
  by_cases hk : k = id
  · rw [hk] at hNone
    simp [World.putVault] at hNone
  · simp only [World.putVault, Function.update_of_ne hk] at hNone
    exact ⟨hk, hNone⟩

section Untouched

variable [DecidableEq Address]

/-- A call neither announces nor pays anything for an id that stays unused. -/
theorem untouched_effect {w w' : World Address} {o : Observation contract}
    (hEffect : Effect contract w w' o) {r : Receipt Address} (hInvoked : o = .invoked r)
    {id : UInt64} (hUnused : w'.storage.vault id = none) :
    announces id r = none ∧ pays id r = none := by
  cases hEffect with
  | failed call failure =>
      cases hInvoked
      cases call <;> exact ⟨rfl, rfl⟩
  | initialised token =>
      cases hInvoked
      exact ⟨rfl, rfl⟩
  | created token owner name d u k next =>
      cases hInvoked
      have hOther := (unused_of_written (w.allocate owner k next) k
        ⟨k, owner, name, d, u, w.now, false⟩ id hUnused).1
      exact ⟨if_neg hOther.symm, if_neg hOther.symm⟩
  | deposited token caller k amount balance v =>
      cases hInvoked
      have hOther := (unused_of_written w k { v with balance } id hUnused).1
      exact ⟨rfl, if_neg hOther.symm⟩
  | extended caller k seconds u v =>
      cases hInvoked
      have hOther := (unused_of_written w k { v with unlockTimestamp := u } id hUnused).1
      exact ⟨if_neg hOther.symm, rfl⟩
  | withdrawn token caller k v =>
      cases hInvoked
      exact ⟨rfl, rfl⟩
  | advanced timestamp => cases hInvoked
  | outside t => cases hInvoked

/-- An id that is unused after a step was unused before it. -/
theorem unused_before {w w' : World Address} {o : Observation contract}
    (hEffect : Effect contract w w' o) {id : UInt64} (hUnused : w'.storage.vault id = none) :
    w.storage.vault id = none := by
  cases hEffect with
  | failed call failure => exact hUnused
  | initialised token => exact hUnused
  | created token owner name d u k next =>
      exact (unused_of_written (w.allocate owner k next) k ⟨k, owner, name, d, u, w.now, false⟩
        id hUnused).2
  | deposited token caller k amount balance v =>
      exact (unused_of_written w k { v with balance } id hUnused).2
  | extended caller k seconds u v =>
      exact (unused_of_written w k { v with unlockTimestamp := u } id hUnused).2
  | withdrawn token caller k v =>
      exact (unused_of_written w k { v with balance := 0, withdrawn := true } id hUnused).2
  | advanced timestamp => exact hUnused
  | outside t => exact hUnused

/-- Nothing is picked out of the receipts for an unused id after a step, if
nothing was before it and nothing is picked out of the new receipt. -/
theorem unpicked_effect {α : Type} (pick : UInt64 → Receipt Address → Option α)
    {past : List (Observation contract)} {w w' : World Address} {o : Observation contract}
    (h : ∀ id, w.storage.vault id = none → (receipts past).filterMap (pick id) = [])
    (hEffect : Effect contract w w' o)
    (hPick : ∀ r, o = .invoked r → ∀ id, w'.storage.vault id = none → pick id r = none)
    (id : UInt64) (hUnused : w'.storage.vault id = none) :
    (receipts (past ++ [o])).filterMap (pick id) = [] := by
  have hBefore := h id (unused_before hEffect hUnused)
  cases o with
  | invoked r =>
      rw [receipts_invoked, List.filterMap_append, hBefore, List.nil_append]
      simp [hPick r rfl id hUnused]
  | advanced timestamp =>
      rw [receipts_advanced]
      exact hBefore
  | moved t =>
      rw [receipts_moved]
      exact hBefore

end Untouched

section Runs

variable [Arithmetic]

/-- A step that emits nothing leaves the parsed stream as it is. -/
theorem parse_emitted_none {key : StrKey Address} {past : List (Observation contract)}
    {o : Observation contract} {all : List ParsedEvent} (hNone : emitted [o] = [])
    (h : parseEvents key (emitted (past ++ [o])) = .ok all) :
    parseEvents key (emitted past) = .ok all := by
  rw [emitted_append, hNone, List.append_nil] at h
  exact h

/-- A step that emits one event appends it to the parsed stream, if it parses. -/
theorem parse_emitted_one {key : StrKey Address} {past : List (Observation contract)}
    {o : Observation contract} {all : List ParsedEvent} {ev : EventResponse Address}
    (hOne : emitted [o] = [ev]) (h : parseEvents key (emitted (past ++ [o])) = .ok all) :
    ∃ before parsed, parseEvents key (emitted past) = .ok before ∧
      parseEvent key ev = .ok parsed ∧ all = before ++ parsed.toList := by
  rw [emitted_append, hOne] at h
  obtain ⟨before, after, hBefore, hAfter, rfl⟩ := parseEvents_append_ok.mp h
  obtain ⟨parsed, later, hParsed, hLater, rfl⟩ := parseEvents_cons_ok.mp hAfter
  cases hLater
  exact ⟨before, parsed, hBefore, hParsed, by rw [List.append_nil]⟩

/-- What is known along a run: nothing is announced for an id before it is
taken, nor paid, and the stream mirrors the storage as long as it parses. -/
structure Tracked (key : StrKey Address) (past : List (Observation contract)) (w : World Address) :
    Prop where
  allocated : Allocated w.storage
  unannounced : ∀ id, w.storage.vault id = none → announced (receipts past) id = []
  unpaid : ∀ id, w.storage.vault id = none → paidIn (receipts past) id = []
  mirrors : ∀ events, parseEvents key (emitted past) = .ok events →
    Mirrors key (receipts past) w events

/-- Before the first call there is no event and no vault, so the invariant
holds. -/
theorem Tracked.genesis (key : StrKey Address) (g : Genesis contract) :
    Tracked key ([] : List (Observation contract)) g.world where
  allocated := Allocated.genesis g
  unannounced _ _ := rfl
  unpaid _ _ := rfl
  mirrors events h := by
    cases h
    exact ⟨List.Pairwise.nil, fun e he => absurd he List.not_mem_nil, fun _ => rfl⟩

/-- The accumulator of a vault that is neither written nor announced nor paid. -/
theorem accumOf_concat {past : List (Receipt Address)} {r : Receipt Address}
    {s s' : Storage Address} {k : UInt64} (hVault : s'.vault k = s.vault k)
    (hAnnounce : announces k r = none) (hPay : pays k r = none) :
    accumOf (past ++ [r]) s' k = accumOf past s k := by
  unfold accumOf
  rw [hVault, latestShown_concat_none hAnnounce, tally_concat_none hPay]

variable [DecidableEq Address]

/-- The parsed stream mirrors the storage after every step that parses. -/
theorem Tracked.mirrors_effect {key : StrKey Address} {past : List (Observation contract)}
    {w w' : World Address} {o : Observation contract} (h : Tracked key past w)
    (hEffect : Effect contract w w' o) (all : List ParsedEvent)
    (hAll : parseEvents key (emitted (past ++ [o])) = .ok all) :
    Mirrors key (receipts (past ++ [o])) w' all := by
  cases hEffect with
  | failed call failure =>
      have hMirror := h.mirrors all (parse_emitted_none rfl hAll)
      rw [receipts_invoked]
      exact hMirror.quiet (UInt64.le_refl _) (fun _ => rfl)
        (fun k => by cases call <;> exact accumOf_concat rfl rfl rfl)
  | initialised token =>
      have hMirror := h.mirrors all (parse_emitted_none rfl hAll)
      rw [receipts_invoked]
      exact hMirror.quiet (UInt64.le_refl _) (fun _ => rfl) (fun k => accumOf_concat rfl rfl rfl)
  | created token owner name d u id next hOwner hAmount hTime hToken hId =>
      obtain ⟨before, parsed, hBefore, hParsed, rfl⟩ := parse_emitted_one rfl hAll
      have hFresh : w.storage.vault id = none := by
        rw [hId]
        exact h.allocated.fresh hToken
      rw [parse_create] at hParsed
      split_ifs at hParsed with hDate
      cases hParsed
      rw [receipts_invoked]
      refine (h.mirrors before hBefore).create h.allocated hFresh rfl rfl rfl rfl rfl ?_ ?_ ?_ ?_
      · simp [World.putVault, World.allocate, World.transfer, Storage.listOwned]
      · intro a ha
        simp [World.putVault, World.allocate, World.transfer, Storage.listOwned, ha]
      · intro k hk
        exact accumOf_concat (Function.update_of_ne hk _ _) (if_neg hk.symm) (if_neg hk.symm)
      · have hAnnounced : announces id ⟨.createVault owner name d u, w.now, .ok (.id id),
            [⟨token, owner, contract, d⟩], [⟨[.symbol "create", .address owner],
              [.u64 id, .i128 d, .u64 u]⟩]⟩ = some u := if_pos rfl
        have hVault : (((w.allocate owner id next).putVault id
            ⟨id, owner, name, d, u, w.now, false⟩).transfer
              ⟨token, owner, contract, d⟩).storage.vault id =
            some ⟨id, owner, name, d, u, w.now, false⟩ := Function.update_self id _ _
        have hPaid : pays id ⟨.createVault owner name d u, w.now, .ok (.id id),
            [⟨token, owner, contract, d⟩], [⟨[.symbol "create", .address owner],
              [.u64 id, .i128 d, .u64 u]⟩]⟩ = some d.val := if_pos rfl
        rw [accumOf_stored hVault, latestShown_concat_some hAnnounced, tally_concat_some hPaid,
          latestShown_of_unannounced (h.unannounced id hFresh), tally_of_unpaid (h.unpaid id hFresh),
          Int.max_eq_right (shownUnlock_nonneg u)]
        simp only [Accum.apply, Accum.seed]
        rw [dateNoteToSec_unlockDay (by decide)]
        rfl
  | deposited token caller id amount balance v hCaller hAmount hVault hOwner hLive hToken hBalance =>
      obtain ⟨before, parsed, hBefore, hParsed, rfl⟩ := parse_emitted_one rfl hAll
      rw [parse_deposit] at hParsed
      cases hParsed
      have hWritten : ((w.putVault id { v with balance }).transfer
          ⟨token, caller, contract, amount⟩).storage.vault id = some { v with balance } :=
        Function.update_self id _ _
      have hPaid : pays id ⟨.deposit caller id amount, w.now, .ok .unit,
          [⟨token, caller, contract, amount⟩], [⟨[.symbol "deposit", .address caller],
            [.u64 id, .i128 amount]⟩]⟩ = some amount.val := if_pos rfl
      rw [receipts_invoked]
      refine (h.mirrors before hBefore).update h.allocated hVault rfl
        (congrArg key.encode hOwner.symm) rfl rfl (fun _ => rfl) ?_ ?_
      · intro k hk
        exact accumOf_concat (Function.update_of_ne hk _ _) rfl (if_neg hk.symm)
      · rw [accumOf_stored hWritten, accumOf_stored hVault, latestShown_concat_none rfl,
          tally_concat_some hPaid]
        simp [Accum.apply, hLive]
  | extended caller id seconds u v hSeconds hVault hOwner hLive hUnlock =>
      obtain ⟨before, parsed, hBefore, hParsed, rfl⟩ := parse_emitted_one rfl hAll
      rw [parse_extend] at hParsed
      split_ifs at hParsed with hDate
      cases hParsed
      have hWritten : (w.putVault id { v with unlockTimestamp := u }).storage.vault id =
          some { v with unlockTimestamp := u } := Function.update_self id _ _
      have hAnnounced : announces id ⟨.extendLock caller id seconds, w.now, .ok (.unlock u), [],
          [⟨[.symbol "extend", .address caller], [.u64 id, .u64 u]⟩]⟩ = some u := if_pos rfl
      rw [receipts_invoked]
      refine (h.mirrors before hBefore).update h.allocated hVault rfl
        (congrArg key.encode hOwner.symm) rfl rfl (fun _ => rfl) ?_ ?_
      · intro k hk
        exact accumOf_concat (Function.update_of_ne hk _ _) (if_neg (Ne.symm hk)) rfl
      · rw [accumOf_stored hWritten, accumOf_stored hVault, latestShown_concat_some hAnnounced,
          tally_concat_none rfl, extend_apply]
  | withdrawn token caller id v hCaller hVault hOwner hLive hTime hToken =>
      obtain ⟨before, parsed, hBefore, hParsed, rfl⟩ := parse_emitted_one rfl hAll
      rw [parse_withdraw] at hParsed
      cases hParsed
      have hWritten : ((w.putVault id { v with balance := 0, withdrawn := true }).transfer
          ⟨token, contract, caller, v.balance⟩).storage.vault id =
            some { v with balance := 0, withdrawn := true } := Function.update_self id _ _
      rw [receipts_invoked]
      refine (h.mirrors before hBefore).update h.allocated hVault rfl
        (congrArg key.encode hOwner.symm) rfl rfl (fun _ => rfl) ?_ ?_
      · intro k hk
        exact accumOf_concat (Function.update_of_ne hk _ _) rfl rfl
      · rw [accumOf_stored hWritten, accumOf_stored hVault, latestShown_concat_none rfl]
        rfl
  | advanced timestamp hLater =>
      rw [receipts_advanced]
      exact (h.mirrors all (parse_emitted_none rfl hAll)).quiet hLater (fun _ => rfl)
        (fun _ => rfl)
  | outside t =>
      rw [receipts_moved]
      exact (h.mirrors all (parse_emitted_none rfl hAll)).quiet (UInt64.le_refl _) (fun _ => rfl)
        (fun _ => rfl)

/-- Each of the effects that an action can have keeps the invariant. -/
theorem Tracked.effect {key : StrKey Address} {past : List (Observation contract)}
    {w w' : World Address} {o : Observation contract} (h : Tracked key past w)
    (hEffect : Effect contract w w' o) : Tracked key (past ++ [o]) w' where
  allocated := h.allocated.effect hEffect
  unannounced := unpicked_effect announces h.unannounced hEffect
    fun _ hInvoked _ hUnused => (untouched_effect hEffect hInvoked hUnused).1
  unpaid := unpicked_effect pays h.unpaid hEffect
    fun _ hInvoked _ hUnused => (untouched_effect hEffect hInvoked hUnused).2
  mirrors := h.mirrors_effect hEffect

/-- After every run the parsed stream mirrors the contract's storage. -/
theorem Tracked.reachable (key : StrKey Address) (g : Genesis contract)
    (as : List (Action contract)) :
    Tracked key (trace (step contract) g.world as) (final (step contract) g.world as) :=
  history_invariant (step contract) (Tracked key) (Tracked.genesis key g)
    (fun _ w a h => h.effect (step_effect contract w a)) as

end Runs

end SorobanClient
