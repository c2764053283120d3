import StellarTimelock.Client.Mirror

/-! When the events fallback may call a vault unlocked. The replay knows an
unlock time only by its day, and only in a window of years. -/
namespace SorobanClient

open XlmVault Execution Calendar FloatingPoint

variable {Address : Type} {contract : Address}

/-- The unlock time is a date whose year the replay accepts. -/
def Readable (u : UInt64) : Prop := 2020 ≤ (unlockDate u).year ∧ (unlockDate u).year ≤ 2100

/-- The first second of the UTC day of an unlock time. -/
def dayStart (u : UInt64) : Nat := u.toNat / 86400 * 86400

/-- The unlock time that the replay shows has come if and only if the announced
date cannot be read, or its day has begun. -/
theorem shownUnlock_le_iff {u : UInt64} {now : Nat} :
    shownUnlock u ≤ now ↔ ¬ (Readable u ∧ now < dayStart u) := by
  unfold shownUnlock Readable dayStart
  split_ifs with hYear
  · constructor
    · rintro hLe ⟨_, hLater⟩
      omega
    · intro h
      by_contra hNot
      exact h ⟨hYear, by omega⟩
  · constructor
    · rintro _ ⟨hReadable, _⟩
      exact hYear hReadable
    · intro _
      exact Int.natCast_nonneg now

/-- The receipts of two runs in a row are those of the first followed by those
of the second. -/
theorem receipts_append (first second : List (Observation contract)) :
    receipts (first ++ second) = receipts first ++ receipts second :=
  List.filterMap_append

/-- The stream of a history can be read to its end. -/
def Parses [Arithmetic] (key : StrKey Address) (past : List (Observation contract)) : Prop :=
  ∃ events, parseEvents key (emitted past) = .ok events

/-- Every unlock time published so far is a date. -/
def Datable (past : List (Observation contract)) : Prop :=
  ∀ id, ∀ u ∈ announced (receipts past) id, u.toNat ≤ maxUnlock

/-- The events of two runs in a row can be parsed if and only if those of each
can. -/
theorem parses_append [Arithmetic] {key : StrKey Address} {first second : List (Observation contract)} :
    Parses key (first ++ second) ↔ Parses key first ∧ Parses key second := by
  unfold Parses
  rw [emitted_append]
  constructor
  · rintro ⟨events, h⟩
    obtain ⟨before, after, hBefore, hAfter, _⟩ := parseEvents_append_ok.mp h
    exact ⟨⟨before, hBefore⟩, ⟨after, hAfter⟩⟩
  · rintro ⟨⟨before, hBefore⟩, ⟨after, hAfter⟩⟩
    exact ⟨before ++ after, parseEvents_append_ok.mpr ⟨before, after, hBefore, hAfter, rfl⟩⟩

theorem datable_append {first second : List (Observation contract)} :
    Datable (first ++ second) ↔ Datable first ∧ Datable second := by
  unfold Datable
  constructor
  · intro h
    constructor
    · intro id u hu
      apply h id u
      rw [receipts_append, announced_append]
      exact List.mem_append_left _ hu
    · intro id u hu
      apply h id u
      rw [receipts_append, announced_append]
      exact List.mem_append_right _ hu
  · rintro ⟨hFirst, hSecond⟩ id u hu
    rw [receipts_append, announced_append] at hu
    rcases List.mem_append.mp hu with hu | hu
    · exact hFirst id u hu
    · exact hSecond id u hu

/-- Reading the one event of a step, if its unlock time is a date. -/
theorem parses_one [Arithmetic] {key : StrKey Address} {o : Observation contract} {ev : EventResponse Address}
    {parsed : ParsedEvent} {u : UInt64} (hOne : emitted [o] = [ev])
    (hParse : parseEvent key ev =
      if u.toNat ≤ maxUnlock then .ok (some parsed) else .error .rangeError) :
    Parses key [o] ↔ u.toNat ≤ maxUnlock := by
  unfold Parses
  rw [hOne]
  constructor
  · rintro ⟨events, h⟩
    obtain ⟨p, _, hHead, _⟩ := parseEvents_cons_ok.mp h
    by_contra hNot
    rw [hParse, if_neg hNot] at hHead
    cases hHead
  · intro hDate
    rw [if_pos hDate] at hParse
    exact ⟨_, parseEvents_cons_ok.mpr ⟨_, [], hParse, rfl, rfl⟩⟩

/-- A receipt that publishes exactly one unlock time. -/
theorem datable_one {r : Receipt Address} (id : UInt64) {u : UInt64} (h : announces id r = some u)
    (hOther : ∀ k, k ≠ id → announces k r = none) :
    Datable ([.invoked r] : List (Observation contract)) ↔ u.toNat ≤ maxUnlock := by
  have hOwn : announced (receipts ([.invoked r] : List (Observation contract))) id = [u] := by
    simp [announced, receipts, h]
  constructor
  · intro hDatable
    apply hDatable id u
    rw [hOwn]
    exact List.mem_singleton.mpr rfl
  · intro hDate k v hv
    by_cases hk : k = id
    · rw [hk, hOwn] at hv
      rw [List.mem_singleton.mp hv]
      exact hDate
    · have hNone : announced (receipts ([.invoked r] : List (Observation contract))) k = [] := by
        simp [announced, receipts, hOther k hk]
      rw [hNone] at hv
      cases hv

/-- A receipt that announces no unlock date of any vault is no obstacle. -/
theorem datable_none {r : Receipt Address} (h : ∀ k, announces k r = none) :
    Datable ([.invoked r] : List (Observation contract)) := by
  intro k v hv
  have hNone : announced (receipts ([.invoked r] : List (Observation contract))) k = [] := by
    simp [announced, receipts, h k]
  rw [hNone] at hv
  cases hv

variable [DecidableEq Address]

/-- A step is readable exactly when the unlock time it publishes is a date. -/
theorem parses_effect [Arithmetic] (key : StrKey Address) {w w' : World Address} {o : Observation contract}
    (hEffect : Effect contract w w' o) : Parses key [o] ↔ Datable [o] := by
  cases hEffect with
  | failed call failure =>
      exact iff_of_true ⟨[], rfl⟩ (datable_none (fun k => by cases call <;> rfl))
  | initialised token => exact iff_of_true ⟨[], rfl⟩ (datable_none (fun _ => rfl))
  | created token owner name d u id next =>
      refine Iff.trans (parses_one ?_ (parse_create key owner id u w.now d)) (Iff.symm ?_)
      · rfl
      · exact datable_one id (if_pos rfl) (fun k hk => if_neg hk.symm)
  | deposited token caller id amount balance v =>
      exact iff_of_true ⟨_, rfl⟩ (datable_none (fun _ => rfl))
  | extended caller id seconds u v =>
      refine Iff.trans (parses_one ?_ (parse_extend key caller id u w.now)) (Iff.symm ?_)
      · rfl
      · exact datable_one id (if_pos rfl) (fun k hk => if_neg hk.symm)
  | withdrawn token caller id v => exact iff_of_true ⟨_, rfl⟩ (datable_none (fun _ => rfl))
  | advanced timestamp => exact iff_of_true ⟨[], rfl⟩ (fun id u hu => absurd hu List.not_mem_nil)
  | outside t => exact iff_of_true ⟨[], rfl⟩ (fun id u hu => absurd hu List.not_mem_nil)

/-- The stream of a run can be read exactly while its unlock times are dates. -/
theorem parses_iff_datable [Arithmetic] (key : StrKey Address) (g : Genesis contract)
    (as : List (Action contract)) :
    Parses key (trace (step contract) g.world as) ↔ Datable (trace (step contract) g.world as) :=
  history_invariant (step contract) (fun past _ => Parses key past ↔ Datable past)
    (iff_of_true ⟨[], rfl⟩ (fun id u hu => absurd hu List.not_mem_nil))
    (fun past w a h => by
      rw [parses_append, datable_append, h, parses_effect key (step_effect contract w a)]) as

/-- The rows the fallback lists are those of the owner's vaults. -/
theorem mem_aggregate_iff [Arithmetic] (key : StrKey Address) (loadMeta : String → VaultMeta) (nowSec : Int)
    (g : Genesis contract) (as : List (Action contract)) (owner : Address)
    {events : List ParsedEvent}
    (hEvents : parseEvents key (emitted (trace (step contract) g.world as)) = .ok events)
    (row : Vault) :
    row ∈ aggregateVaultsFromEvents loadMeta nowSec events (key.encode owner) (fun _ => none) ↔
      ∃ id v, (final (step contract) g.world as).storage.vault id = some v ∧ v.owner = owner ∧
        row = (accumOf (receipts (trace (step contract) g.world as))
          (final (step contract) g.world as).storage id).row (key.encode owner) nowSec
            (loadMeta (idText id)) none := by
  have hTracked := Tracked.reachable key g as
  rw [mem_aggregate, (hTracked.mirrors events hEvents).replay_eq owner]
  constructor
  · rintro ⟨a, ha, rfl⟩
    obtain ⟨id, hid, rfl⟩ := List.mem_map.mp ha
    obtain ⟨v, hVault, hOwner⟩ := (hTracked.allocated.indexed owner id).mp hid
    exact ⟨id, v, hVault, hOwner, rfl⟩
  · rintro ⟨id, v, hVault, hOwner, rfl⟩
    exact ⟨_, List.mem_map_of_mem ((hTracked.allocated.indexed owner id).mpr ⟨v, hVault, hOwner⟩),
      rfl⟩

/-- After every run and for every owner, the events fallback calls a vault
unlocked only when the contract would let it go, if and only if either some
published unlock time is no date at all, so that nothing is listed, or every
vault of the owner that still holds money is due or has a published unlock
time in a readable year whose day has yet to begin. -/
theorem replay_status_sound_iff [Arithmetic] (key : StrKey Address) (loadMeta : String → VaultMeta)
    (g : Genesis contract) (as : List (Action contract)) (owner : Address) (now : Nat) :
    let past := trace (step contract) g.world as
    let w := final (step contract) g.world as
    (∀ events, parseEvents key (emitted past) = .ok events →
      ∀ row ∈ aggregateVaultsFromEvents loadMeta now events (key.encode owner) (fun _ => none),
      ∀ id v, w.storage.vault id = some v → row.vaultId = idText id → v.withdrawn = false →
        row.status = .unlocked → v.unlockTimestamp.toNat ≤ now) ↔
    (∃ id, ∃ u ∈ announced (receipts past) id, maxUnlock < u.toNat) ∨
      ∀ id v, w.storage.vault id = some v → v.owner = owner → v.withdrawn = false →
        v.unlockTimestamp.toNat ≤ now ∨
          ∃ u ∈ announced (receipts past) id, Readable u ∧ now < dayStart u := by
  intro past w
  have hDue (id : UInt64) (v : XlmVault.Vault Address) (hVault : w.storage.vault id = some v)
      (hLive : v.withdrawn = false) :
      ((accumOf (receipts past) w.storage id).row (key.encode owner) now (loadMeta (idText id))
        none).status = .unlocked ↔
        ¬ ∃ u ∈ announced (receipts past) id, Readable u ∧ now < dayStart u := by
    rw [Accum.row_status, accumOf_stored hVault, hLive]
    simp only [Bool.false_eq_true, if_false]
    rw [ite_eq_left_iff]
    simp only [reduceCtorEq, imp_false, not_not]
    rw [latestShown_le_iff (Int.natCast_nonneg now)]
    simp only [shownUnlock_le_iff, not_exists, not_and]
  have hNothing : (∃ id, ∃ u ∈ announced (receipts past) id, maxUnlock < u.toNat) ↔
      ¬ Parses key past := by
    rw [parses_iff_datable key g as]
    simp only [Datable, not_forall, Nat.not_le, exists_prop]
    rfl
  rw [hNothing]
  constructor
  · intro hSound
    by_cases hParses : Parses key past
    · right
      intro id v hVault hOwner hLive
      obtain ⟨events, hEvents⟩ := hParses
      by_contra hBad
      rw [not_or] at hBad
      have hRow := (mem_aggregate_iff key loadMeta now g as owner hEvents _).mpr
        ⟨id, v, hVault, hOwner, rfl⟩
      exact hBad.1 (hSound events hEvents _ hRow id v hVault rfl hLive
        ((hDue id v hVault hLive).mpr hBad.2))
    · exact Or.inl hParses
  · rintro (hSilent | hDay) events hEvents row hRow id v hVault hId hLive hStatus
    · exact absurd ⟨events, hEvents⟩ hSilent
    · obtain ⟨k, u, hu, hOwner, rfl⟩ :=
        (mem_aggregate_iff key loadMeta now g as owner hEvents row).mp hRow
      have hk : k = id := idText_injective hId
      subst hk
      cases hVault.symm.trans hu
      rcases hDay k v hVault hOwner hLive with hPassed | hLater
      · exact hPassed
      · exact absurd hLater ((hDue k v hVault hLive).mp hStatus)

/-- A vault that opens at noon on 2026-01-01. -/
def noonRun : List (Action (0 : Nat)) :=
  [.invoke everyone willing (.init 1), .advance 1767200000,
    .invoke everyone willing (.createVault 7 "Rent" ⟨700, by decide, by decide⟩ 1767268800)]

def noonEvent [Arithmetic] : ParsedEvent :=
  ⟨"0", "7", .create, stroopsToXlm 700, "unlock 2026-01-01", 1767200000⟩

theorem parse_noonRun [Arithmetic] :
    parseEvents numbered (emitted (trace (step (0 : Nat)) sampleGenesis.world noonRun)) =
      .ok [noonEvent] := by
  have hEmitted : emitted (trace (step (0 : Nat)) sampleGenesis.world noonRun) =
      [⟨⟨[.symbol "create", .address 7], [.u64 0,
        .i128 ⟨700, by decide, by decide⟩, .u64 1767268800]⟩, 1767200000⟩] := rfl
  rw [hEmitted, parseEvents, parse_create]
  rfl

section Sample

attribute [local instance] Arithmetic.double

/-- From midnight to noon of that day it is shown as unlocked. -/
theorem replay_status_noon :
    let past := trace (step (0 : Nat)) sampleGenesis.world noonRun
    let w := final (step (0 : Nat)) sampleGenesis.world noonRun
    ∃ events row v, parseEvents numbered (emitted past) = .ok events ∧
      row ∈ aggregateVaultsFromEvents (fun _ => emptyMeta) (1767225600 : Nat) events
        (numbered.encode 7) (fun _ => none) ∧
      w.storage.vault 0 = some v ∧ row.vaultId = idText 0 ∧ v.withdrawn = false ∧
      row.status = .unlocked ∧ ¬ v.unlockTimestamp.toNat ≤ 1767225600 := by
  intro past w
  have hVault : w.storage.vault 0 =
      some ⟨0, 7, "Rent", ⟨700, by decide, by decide⟩, 1767268800, 1767200000, false⟩ := rfl
  exact ⟨_, _, _, parse_noonRun, List.mem_singleton.mpr rfl, hVault, rfl, rfl, rfl, by decide⟩

end Sample

end SorobanClient
