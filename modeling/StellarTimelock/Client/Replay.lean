import StellarTimelock.Client.Events
import Mathlib.Data.List.Sort

/-! The rows the client shows, and the fallback that rebuilds them from the
event stream alone. -/
namespace SorobanClient

open Calendar FloatingPoint

inductive Status where
  | locked
  | unlocked
  | withdrawn
  | archived
  deriving DecidableEq, Repr

/-- A row of the dashboard. -/
structure Vault where
  vaultId : String
  ownerPublicKey : String
  name : String
  description : String
  template : String
  balance : Rat
  targetAmount : Option Rat
  unlockTimestamp : Int
  createdTimestamp : Int
  status : Status
  deriving DecidableEq

/-- A date text of the backend as `Date.parse` reads it, in milliseconds;
`none` is a text it cannot read. -/
abbrev IsoText := Option Int

/-- One row of the backend's meta store. -/
structure RemoteMeta where
  vaultId : String
  description : String
  template : String
  targetAmount : Option Rat := none
  name : Option String := none
  balanceXlm : Option Rat := none
  unlockTimestamp : Option Int := none
  onChainStatus : Option String := none
  createdAt : Option IsoText := none
  updatedAt : Option IsoText := none
  deriving DecidableEq

/-- The record the device keeps of a vault, as far as rows show it. -/
structure VaultMeta where
  description : String
  template : String
  targetAmount : Option Rat
  name : Option String
  deriving DecidableEq

def emptyMeta : VaultMeta := ⟨"", "custom", none, none⟩

/-- A name that is there and does not trim to nothing. -/
def shownName (name : Option String) : Option String :=
  name.filter fun s => s.toList.any (fun c => !isWhiteSpace c)

def parseIsoToUnix (iso : Option IsoText) : Int :=
  match iso with
  | some (some ms) => ms / 1000
  | _ => 0

/-- The start of the UTC day named in a note, in seconds; 0 when there is none
or its year is out of the window. -/
def dateNoteToSec (note : String) : Int :=
  match firstDate note.toList with
  | none => 0
  | some (y, m, d) =>
      if digitsValue y < 2020 ∨ 2100 < digitsValue y then 0
      else match parseMidnight y m d with
        | some ms => ms / 1000
        | none => 0

structure Accum where
  vaultId : String
  balanceXlm : Rat
  unlockTimestamp : Int
  createdTimestamp : Int
  withdrawn : Bool
  deriving DecidableEq

section Replay

variable [Arithmetic]

/-- The effect of one event on the accumulator of its vault. -/
def Accum.apply (v : Accum) (ev : ParsedEvent) : Accum :=
  match ev.kind with
  | .create => { v with balanceXlm := Arithmetic.add v.balanceXlm ev.amount }
  | .deposit => { v with balanceXlm := Arithmetic.add v.balanceXlm ev.amount }
  | .extend =>
      let newUnlock := dateNoteToSec ev.note
      if v.unlockTimestamp < newUnlock then { v with unlockTimestamp := newUnlock } else v
  | .withdraw => { v with balanceXlm := 0, withdrawn := true }

/-- The accumulator a `create` event seeds. -/
def Accum.seed (ev : ParsedEvent) : Accum :=
  { vaultId := ev.vaultId
    balanceXlm := 0
    unlockTimestamp := dateNoteToSec ev.note
    createdTimestamp := ev.timestamp
    withdrawn := false }

/-- One round of the replay. The map keeps its keys in order of insertion. -/
def replayEvent (byId : List Accum) (ev : ParsedEvent) : List Accum :=
  if byId.any (fun v => v.vaultId = ev.vaultId) then
    byId.map fun v => if v.vaultId = ev.vaultId then v.apply ev else v
  else if ev.kind = .create then byId ++ [(Accum.seed ev).apply ev]
  else byId

/-- The accumulators after the events of one owner, oldest event first. -/
def replay (events : List ParsedEvent) (owner : String) : List Accum :=
  let ownerEvents := events.filter fun e => e.ownerPublicKey = owner
  (ownerEvents.insertionSort fun a b => a.timestamp ≤ b.timestamp).foldl replayEvent []

/-- The row shown for one accumulator. -/
def Accum.row (owner : String) (nowSec : Int) (offMeta : VaultMeta) (remote : Option RemoteMeta)
    (v : Accum) : Vault :=
  let finalUnlock := match remote.bind (·.unlockTimestamp) with
    | some t => if 0 < t then t else v.unlockTimestamp
    | none => v.unlockTimestamp
  let finalBalance := match remote.bind (·.balanceXlm) with
    | some xlm => if v.withdrawn then v.balanceXlm else xlm
    | none => v.balanceXlm
  let finalWithdrawn := v.withdrawn || remote.bind (·.onChainStatus) = some "withdrawn"
  let finalCreated :=
    if 0 < v.createdTimestamp then v.createdTimestamp
    else parseIsoToUnix (remote.bind fun r => r.createdAt.or r.updatedAt)
  { vaultId := v.vaultId
    ownerPublicKey := owner
    name := ((shownName (remote.bind (·.name))).or (shownName offMeta.name)).getD ("Vault #" ++ v.vaultId)
    description := (remote.map (·.description)).getD offMeta.description
    template := (remote.map (·.template)).getD offMeta.template
    balance := if finalWithdrawn then 0 else finalBalance
    targetAmount := (remote.bind (·.targetAmount)).or offMeta.targetAmount
    unlockTimestamp := finalUnlock
    createdTimestamp := finalCreated
    status :=
      if finalWithdrawn then .withdrawn else if finalUnlock ≤ nowSec then .unlocked else .locked }

/-- The events fallback: one row per replayed vault, newest first. -/
def aggregateVaultsFromEvents (loadMeta : String → VaultMeta) (nowSec : Int)
    (events : List ParsedEvent) (owner : String) (remoteMetasById : String → Option RemoteMeta) :
    List Vault :=
  let rows := (replay events owner).map fun v =>
    v.row owner nowSec (loadMeta v.vaultId) (remoteMetasById v.vaultId)
  rows.insertionSort fun a b => b.createdTimestamp ≤ a.createdTimestamp

theorem mem_aggregate {loadMeta : String → VaultMeta} {nowSec : Int} {events : List ParsedEvent}
    {owner : String} {remoteMetasById : String → Option RemoteMeta} {row : Vault} :
    row ∈ aggregateVaultsFromEvents loadMeta nowSec events owner remoteMetasById ↔
      ∃ v ∈ replay events owner,
        v.row owner nowSec (loadMeta v.vaultId) (remoteMetasById v.vaultId) = row := by
  unfold aggregateVaultsFromEvents
  rw [List.mem_insertionSort, List.mem_map]

@[simp] theorem Accum.apply_vaultId (v : Accum) (ev : ParsedEvent) :
    (v.apply ev).vaultId = v.vaultId := by
  unfold Accum.apply
  cases ev.kind with
  | create => rfl
  | deposit => rfl
  | extend =>
      simp only
      split_ifs <;> rfl
  | withdraw => rfl

/-- One round makes a vault known only by its `create` event. -/
theorem exists_replayEvent_iff (byId : List Accum) (ev : ParsedEvent) (id : String) :
    (∃ v ∈ replayEvent byId ev, v.vaultId = id) ↔
      (∃ v ∈ byId, v.vaultId = id) ∨ ev.kind = .create ∧ ev.vaultId = id := by
  unfold replayEvent
  split_ifs with hKnown hCreate
  · rw [List.any_eq_true] at hKnown
    obtain ⟨known, hMem, hSame⟩ := hKnown
    constructor
    · rintro ⟨v, hv, rfl⟩
      obtain ⟨u, hu, rfl⟩ := List.mem_map.mp hv
      refine Or.inl ⟨u, hu, ?_⟩
      split_ifs <;> simp
    · rintro (⟨v, hv, rfl⟩ | ⟨_, rfl⟩)
      · refine ⟨_, List.mem_map_of_mem hv, ?_⟩
        split_ifs <;> simp
      · refine ⟨_, List.mem_map_of_mem hMem, ?_⟩
        rw [if_pos (of_decide_eq_true hSame), Accum.apply_vaultId]
        exact of_decide_eq_true hSame
  · constructor
    · rintro ⟨v, hv, rfl⟩
      rcases List.mem_append.mp hv with hv | hv
      · exact Or.inl ⟨v, hv, rfl⟩
      · rw [List.mem_singleton.mp hv, Accum.apply_vaultId]
        exact Or.inr ⟨hCreate, rfl⟩
    · rintro (⟨v, hv, rfl⟩ | ⟨_, rfl⟩)
      · exact ⟨v, List.mem_append_left _ hv, rfl⟩
      · exact ⟨_, List.mem_append_right _ (List.mem_singleton.mpr rfl), Accum.apply_vaultId _ _⟩
  · simp [hCreate]

/-- The replay knows exactly the vaults whose `create` event it was given. -/
theorem exists_replay_iff (events : List ParsedEvent) (owner id : String) :
    (∃ v ∈ replay events owner, v.vaultId = id) ↔
      ∃ e ∈ events, e.kind = .create ∧ e.ownerPublicKey = owner ∧ e.vaultId = id := by
  have hFold (evs : List ParsedEvent) (byId : List Accum) :
      (∃ v ∈ evs.foldl replayEvent byId, v.vaultId = id) ↔
        (∃ v ∈ byId, v.vaultId = id) ∨ ∃ e ∈ evs, e.kind = .create ∧ e.vaultId = id := by
    induction evs generalizing byId with
    | nil => simp
    | cons ev evs ih =>
        rw [List.foldl_cons, ih, exists_replayEvent_iff, or_assoc]
        simp only [List.exists_mem_cons_iff]
  unfold replay
  rw [hFold]
  constructor
  · rintro (⟨_, hv, _⟩ | ⟨e, he, hKind, hId⟩)
    · cases hv
    · rw [List.mem_insertionSort, List.mem_filter] at he
      exact ⟨e, he.1, hKind, of_decide_eq_true he.2, hId⟩
  · rintro ⟨e, he, hKind, hOwner, hId⟩
    refine Or.inr ⟨e, ?_, hKind, hId⟩
    rw [List.mem_insertionSort, List.mem_filter]
    exact ⟨he, decide_eq_true hOwner⟩

end Replay

/-- Without a backend row the status is the replayed one. -/
theorem Accum.row_status (owner : String) (nowSec : Int) (offMeta : VaultMeta) (v : Accum) :
    (v.row owner nowSec offMeta none).status =
      if v.withdrawn then .withdrawn
      else if v.unlockTimestamp ≤ nowSec then .unlocked else .locked := by
  simp [Accum.row]

/-- With distinct keys, looking one up finds its only entry. -/
theorem find?_key_iff {α β : Type} [DecidableEq β] {key : α → β} {xs : List α}
    (h : (xs.map key).Nodup) {k : β} {x : α} :
    xs.find? (fun a => key a = k) = some x ↔ x ∈ xs ∧ key x = k := by
  constructor
  · intro hFound
    exact ⟨List.mem_of_find?_eq_some hFound, by simpa using List.find?_some hFound⟩
  · rintro ⟨hMem, rfl⟩
    have hSome : (xs.find? fun a => key a = key x).isSome = true :=
      List.find?_isSome.mpr ⟨x, hMem, decide_eq_true rfl⟩
    obtain ⟨y, hFound⟩ := Option.isSome_iff_exists.mp hSome
    have hSame : key y = key x := by simpa using List.find?_some hFound
    rw [hFound, List.inj_on_of_nodup_map h (List.mem_of_find?_eq_some hFound) hMem hSame]

/-- The replay has one accumulator for each vault. -/
theorem replay_nodup [Arithmetic] (events : List ParsedEvent) (owner : String) :
    ((replay events owner).map (·.vaultId)).Nodup := by
  have hFold (evs : List ParsedEvent) (byId : List Accum) (h : (byId.map (·.vaultId)).Nodup) :
      ((evs.foldl replayEvent byId).map (·.vaultId)).Nodup := by
    induction evs generalizing byId with
    | nil => exact h
    | cons ev evs ih =>
        rw [List.foldl_cons]
        apply ih
        unfold replayEvent
        split_ifs with hKnown hCreate
        · have hIds : (byId.map fun v => if v.vaultId = ev.vaultId then v.apply ev else v).map
              (·.vaultId) = byId.map (·.vaultId) := by
            rw [List.map_map]
            apply List.map_congr_left
            intro v _
            show (if v.vaultId = ev.vaultId then v.apply ev else v).vaultId = v.vaultId
            split_ifs <;> simp
          rw [hIds]
          exact h
        · rw [List.map_append, List.nodup_append]
          refine ⟨h, List.nodup_singleton _, ?_⟩
          intro a ha b hb hSame
          rw [List.mem_singleton.mp hb] at hSame
          obtain ⟨v, hv, hId⟩ := List.mem_map.mp ha
          refine hKnown (List.any_eq_true.mpr ⟨v, hv, decide_eq_true ?_⟩)
          exact hId.trans (hSame.trans (Accum.apply_vaultId _ ev))
        · exact h
  exact hFold _ [] List.nodup_nil

/-- The unlock time the fallback can show for an announced one: the start of
its UTC day, if its year is in the window. -/
def shownUnlock (u : UInt64) : Int :=
  if 2020 ≤ (unlockDate u).year ∧ (unlockDate u).year ≤ 2100 then u.toNat / 86400 * 86400 else 0

/-- What the note of an unlock time is read back as. -/
theorem dateNoteToSec_unlockDay {intro : String} (h : intro.toList.any (·.isDigit) = false)
    (u : UInt64) : dateNoteToSec (intro ++ unlockDay u) = shownUnlock u := by
  have hLetters : ∀ c ∈ intro.toList, c.isDigit = false := by
    intro c hc
    rw [← Bool.not_eq_true]
    exact List.any_eq_false.mp h c hc
  have hFound := firstDate_take_isoDate (unlockDate u) [] hLetters
  rw [List.append_nil] at hFound
  unfold dateNoteToSec unlockDay shownUnlock
  rw [String.toList_append, String.toList_ofList, hFound]
  by_cases hYear : 0 ≤ (unlockDate u).year ∧ (unlockDate u).year ≤ 9999
  · obtain ⟨hFrom, hTo⟩ := hYear
    have hValue : digitsValue (padded 4 (unlockDate u).year.toNat) = (unlockDate u).year.toNat :=
      digitsValue_padded (by omega)
    have hRead := parseMidnight_padded (Date.ofDay_valid (u.toNat / 86400)) hFrom hTo
      (Date.ofDay_day_le (u.toNat / 86400))
    rw [if_pos ⟨hFrom, hTo⟩]
    simp only [hValue]
    by_cases hWindow : 2020 ≤ (unlockDate u).year ∧ (unlockDate u).year ≤ 2100
    · have hInside : ¬ ((unlockDate u).year.toNat < 2020 ∨ 2100 < (unlockDate u).year.toNat) := by
        omega
      rw [if_neg hInside, if_pos hWindow]
      unfold unlockDate at hRead ⊢
      rw [hRead, Date.toDay_ofDay]
      unfold msPerDay
      simp only
      omega
    · have hOutside : (unlockDate u).year.toNat < 2020 ∨ 2100 < (unlockDate u).year.toNat := by
        omega
      rw [if_pos hOutside, if_neg hWindow]
  · have hWindow : ¬ (2020 ≤ (unlockDate u).year ∧ (unlockDate u).year ≤ 2100) := by omega
    rw [if_neg hYear, if_neg hWindow]

theorem shownUnlock_nonneg (u : UInt64) : 0 ≤ shownUnlock u := by
  unfold shownUnlock
  split_ifs <;> omega

end SorobanClient
