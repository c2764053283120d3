import StellarTimelock.Client.Summary
import Mathlib.Algebra.BigOperators.Ring.Finset

/-! A device in use: the ledger goes on, lists are read in good and bad times
and kept in the cache, the app is restarted. Whatever has happened, a list that
is simulated then has the true totals. -/
namespace SorobanClient

open XlmVault Execution FloatingPoint Transaction

variable {Address : Type} {contract : Address}

/-- What outlasts a call: the cached lists by owner, on the disk, and the flag of
the simulate path, in memory. -/
structure Device where
  vaultCache : String → Option (List Vault)
  simulatePathBroken : Bool

def Device.new : Device := ⟨fun _ => none, false⟩

/-- What one call is answered. -/
structure ReadAnswers (Address : Type) where
  simulates : Bool
  /-- `isXdrParseError` of the exception of a simulated read that fails. -/
  xdrParseError : Bool
  events : Option (List ParsedEvent)
  remoteMetas : String → Option (List RemoteMeta)
  loadMeta : String → String → VaultMeta
  scU64 : String → Option UInt64
  nowSec : Int
  /-- Whether the cache can be read, and whether it can be written. -/
  loads : Bool
  saves : Bool

/-- A call finds the simulate path disabled once the flag is set. -/
def Device.session (key : StrKey Address) (mergeVaults : List Vault → List Vault → List Vault)
    (d : Device) (a : ReadAnswers Address) : Session Address where
  key := key
  simulates := !d.simulatePathBroken && a.simulates
  events := a.events
  cachedVaults owner := if a.loads then d.vaultCache owner else none
  remoteMetas := a.remoteMetas
  loadMeta := a.loadMeta
  mergeVaults := mergeVaults
  scU64 := a.scU64
  nowSec := a.nowSec

/-- The flag is set by a simulated read that fails to be decoded. -/
def Device.flag (d : Device) (a : ReadAnswers Address) : Device :=
  { d with simulatePathBroken := d.simulatePathBroken || (!a.simulates && a.xdrParseError) }

def Device.save (d : Device) (owner : String) (saved : Option (List Vault)) : Device :=
  match saved with
  | some rows => { d with vaultCache := Function.update d.vaultCache owner (some rows) }
  | none => d

/-- The ledger and one device. -/
structure Phone (contract : Address) where
  past : List (Observation contract)
  world : World Address
  device : Device

/-- What happens next. Calls of the client run to their end one after another. -/
inductive Use (contract : Address) where
  | ledger (a : Action contract)
  | listVaults (owner : Address) (a : ReadAnswers Address)
  | getVault (id : String) (ownerHint : Option String) (a : ReadAnswers Address)
  | restart

section Phone

variable [DecidableEq Address] (key : StrKey Address)
  (mergeVaults : List Vault → List Vault → List Vault)

def Phone.step [Arithmetic] (p : Phone contract) : Use contract → Phone contract × Option Listing
  | .ledger a =>
      let next := XlmVault.step contract p.world a
      ({ p with past := p.past ++ [next.2], world := next.1 }, none)
  | .listVaults owner a =>
      let listing := SorobanClient.listVaults (p.device.session key mergeVaults a) p.world.storage owner
      let saved := if a.saves then listing.saved else none
      ({ p with device := (p.device.flag a).save (key.encode owner) saved }, some listing)
  | .getVault _ _ a => ({ p with device := p.device.flag a }, none)
  | .restart => ({ p with device := { p.device with simulatePathBroken := false } }, none)

/-- The events that a call is given are some that the contract has emitted. -/
def Phone.Genuine [Arithmetic] (p : Phone contract) : Use contract → Prop
  | .listVaults _ a | .getVault _ _ a => ∀ events, a.events = some events → ∀ e ∈ events,
      ∃ ev ∈ emitted p.past, parseEvent key ev = .ok (some e)
  | _ => True

/-- A phone that has not been used, beside a ledger that has not either. -/
def Phone.new (g : Genesis contract) : Phone contract := ⟨[], g.world, .new⟩

end Phone

/-- An event is about a stored vault and names its owner. -/
def EventResponse.About [Arithmetic] (key : StrKey Address) (w : World Address) (ev : EventResponse Address) :
    Prop :=
  ∀ e, parseEvent key ev = .ok (some e) → ∃ id v, w.storage.vault id = some v ∧
    e.vaultId = idText id ∧ e.ownerPublicKey = key.encode v.owner

/-- What an event says of a vault stays true as the contract goes on: its id
stays that owner's. -/
theorem EventResponse.About.evolves [Arithmetic] {key : StrKey Address} {w w' : World Address}
    {ev : EventResponse Address} (h : ev.About key w) (hEvolves : w.Evolves w') : ev.About key w' := by
  intro e he
  obtain ⟨id, v, hVault, hId, hOwner⟩ := h e he
  obtain ⟨v', hVault', hLater⟩ := hEvolves id v hVault
  exact ⟨id, v', hVault', hId, by rw [hLater.owner]; exact hOwner⟩

theorem Owns.nil (storage : Storage Address) (owner : Address) : Owns storage owner [] :=
  ⟨fun _ hv => absurd hv List.not_mem_nil, List.nodup_nil⟩

/-- Rows of an owner's own vaults stay rows of that owner's own vaults, as ids
never change hands. -/
theorem Owns.evolves {w w' : World Address} {owner : Address} {rows : List Vault}
    (h : Owns w.storage owner rows) (hBefore : Allocated w.storage) (hAfter : Allocated w'.storage)
    (hEvolves : w.Evolves w') : Owns w'.storage owner rows := by
  refine ⟨?_, h.once⟩
  intro row hRow
  obtain ⟨id, hid, hText⟩ := h.owned row hRow
  obtain ⟨v, hVault, hOwner⟩ := (hBefore.indexed owner id).mp hid
  obtain ⟨v', hVault', hLater⟩ := hEvolves id v hVault
  exact ⟨id, (hAfter.indexed owner id).mpr ⟨v', hVault', hLater.owner.trans hOwner⟩, hText⟩

/-- Merging rows of the cache with rows just read keeps this, as the merge makes
up no rows. -/
theorem Owns.merge {storage : Storage Address} {owner : Address} {cached rows : List Vault}
    {mergeVaults : List Vault → List Vault → List Vault} (hMerge : Overlays mergeVaults)
    (hCached : Owns storage owner cached) (hRows : Owns storage owner rows) :
    Owns storage owner (mergeVaults cached rows) := by
  refine ⟨?_, hMerge.once _ _ hCached.once hRows.once⟩
  intro row hRow
  rcases hMerge.origin _ _ row hRow with hLive | ⟨hKept, _⟩
  · exact hRows.owned row hLive
  · exact hCached.owned row hKept

/-- The simulated rows of an owner are rows of the owner's vaults and of nothing
else. -/
theorem Owns.simulated [Arithmetic] {s : Session Address} {storage : Storage Address} {owner : Address}
    (h : Allocated storage) :
    Owns storage owner ((storage.portfolio owner).map (simulatedRow s owner)) := by
  refine ⟨?_, simulated_once s owner h⟩
  intro row hRow
  obtain ⟨v, hv, rfl⟩ := List.mem_map.mp hRow
  refine ⟨v.vaultId, ?_, rfl⟩
  rw [← portfolio_ids h owner]
  exact List.mem_map_of_mem hv

/-- What a call takes for the live rows are rows of vaults of the owner. -/
theorem liveVaults_owns [Arithmetic] {s : Session Address} {w : World Address} (h : w.Sound)
    (hMerge : Overlays s.mergeVaults) (owner : Address) (metas : List RemoteMeta)
    (hCache : Owns w.storage owner ((s.cachedVaults (s.key.encode owner)).getD []))
    (hEvents : ∀ events, s.events = some events → ∀ e ∈ events, ∃ id v,
      w.storage.vault id = some v ∧ e.vaultId = idText id ∧ e.ownerPublicKey = s.key.encode v.owner) :
    Owns w.storage owner (liveVaults s w.storage owner metas).2 := by
  unfold liveVaults
  cases hSimulates : s.simulates with
  | true =>
      simp only [simulateList_eq h.allocated hSimulates]
      exact hCache.merge hMerge (Owns.simulated h.allocated)
  | false =>
      have hNone : simulateList s w.storage owner = none := by
        unfold simulateList
        rw [hSimulates]
        rfl
      have hReplayed : Owns w.storage owner ((s.events.map fun events =>
          aggregateVaultsFromEvents (s.loadMeta (s.key.encode owner)) s.nowSec events
            (s.key.encode owner) (metaById metas)).getD []) := by
        cases hSome : s.events with
        | none => exact Owns.nil _ _
        | some events =>
            refine ⟨?_, aggregate_nodup _ _ _ _ _⟩
            intro row hRow
            obtain ⟨e, he, -, hOwner, hId⟩ := hasRow_aggregate_iff.mp ⟨row, hRow, rfl⟩
            obtain ⟨id, v, hVault, hText, hKey⟩ := hEvents events hSome e he
            refine ⟨id, (h.allocated.indexed owner id).mpr ⟨v, hVault, ?_⟩, hId.symm.trans hText⟩
            exact s.key.injective (hKey.symm.trans hOwner)
      simp only [hNone]
      split_ifs
      · exact hCache.merge hMerge hReplayed
      · exact hCache
      · exact Owns.nil _ _

variable [DecidableEq Address]

/-- Each event that a step publishes is about a vault that is stored after the
step, for the owner that it names. -/
theorem about_emitted [Arithmetic] {key : StrKey Address} {w w' : World Address} {o : Observation contract}
    (hEffect : Effect contract w w' o) : ∀ ev ∈ emitted [o], ev.About key w' := by
  cases hEffect with
  | failed call failure => exact fun ev hev => absurd hev List.not_mem_nil
  | initialised token => exact fun ev hev => absurd hev List.not_mem_nil
  | created token owner name d u id next =>
      intro ev hev e he
      rw [List.mem_singleton.mp hev, parse_create] at he
      split_ifs at he
      cases he
      exact ⟨id, _, Function.update_self id _ _, rfl, rfl⟩
  | deposited token caller id amount balance v hCaller hAmount hVault hOwner =>
      intro ev hev e he
      rw [List.mem_singleton.mp hev, parse_deposit] at he
      cases he
      exact ⟨id, _, Function.update_self id _ _, rfl, congrArg key.encode hOwner.symm⟩
  | extended caller id seconds u v hSeconds hVault hOwner =>
      intro ev hev e he
      rw [List.mem_singleton.mp hev, parse_extend] at he
      split_ifs at he
      cases he
      exact ⟨id, _, Function.update_self id _ _, rfl, congrArg key.encode hOwner.symm⟩
  | withdrawn token caller id v hCaller hVault hOwner =>
      intro ev hev e he
      rw [List.mem_singleton.mp hev, parse_withdraw] at he
      cases he
      exact ⟨id, _, Function.update_self id _ _, rfl, congrArg key.encode hOwner.symm⟩
  | advanced timestamp => exact fun ev hev => absurd hev List.not_mem_nil
  | outside t => exact fun ev hev => absurd hev List.not_mem_nil

/-- A stored vault has been created after the beginning of time, if the ledger
has begun then. -/
theorem created_positive {w w' : World Address} {o : Observation contract}
    (hNow : 0 < w.now) (h : ∀ id v, w.storage.vault id = some v → 0 < v.createdTimestamp)
    (hEffect : Effect contract w w' o) :
    0 < w'.now ∧ ∀ id v, w'.storage.vault id = some v → 0 < v.createdTimestamp := by
  have hWritten {v' : XlmVault.Vault Address} {id : UInt64} (hNew : 0 < v'.createdTimestamp) :
      ∀ k u, Function.update w.storage.vault id (some v') k = some u → 0 < u.createdTimestamp := by
    intro k u hu
    by_cases hk : k = id
    · rw [hk, Function.update_self] at hu
      cases hu
      exact hNew
    · rw [Function.update_of_ne hk] at hu
      exact h k u hu
  cases hEffect with
  | failed call failure => exact ⟨hNow, h⟩
  | initialised token => exact ⟨hNow, h⟩
  | created token owner name d u id next => exact ⟨hNow, hWritten hNow⟩
  | deposited token caller id amount balance v hCaller hAmount hVault =>
      exact ⟨hNow, hWritten (h id v hVault)⟩
  | extended caller id seconds u v hSeconds hVault => exact ⟨hNow, hWritten (h id v hVault)⟩
  | withdrawn token caller id v hCaller hVault => exact ⟨hNow, hWritten (h id v hVault)⟩
  | advanced timestamp hLater => exact ⟨UInt64.lt_of_lt_of_le hNow hLater, h⟩
  | outside t => exact ⟨hNow, h⟩

/-- What stays true of a phone in use. -/
structure Phone.Consistent [Arithmetic] (key : StrKey Address) (p : Phone contract) : Prop where
  sound : p.world.Sound
  solvent : Solvent p.past p.world
  started : 0 < p.world.now
  dated : ∀ id v, p.world.storage.vault id = some v → 0 < v.createdTimestamp
  about : ∀ ev ∈ emitted p.past, ev.About key p.world
  cached : ∀ owner rows, p.device.vaultCache (key.encode owner) = some rows →
    Owns p.world.storage owner rows

namespace Phone.Consistent

variable [Arithmetic] {key : StrKey Address} {mergeVaults : List Vault → List Vault → List Vault}
  {p : Phone contract}

theorem new {g : Genesis contract} (hClock : 0 < g.now) : (Phone.new g).Consistent key where
  sound := World.Sound.genesis g
  solvent := Solvent.genesis g
  started := hClock
  dated id v hVault := by cases hVault
  about ev hev := absurd hev List.not_mem_nil
  cached owner rows hRows := by cases hRows

/-- What is loaded from the cache, if it can be read, are rows of the owner's
own vaults. -/
theorem loaded (h : p.Consistent key) (a : ReadAnswers Address) (owner : Address) :
    Owns p.world.storage owner
      (((p.device.session key mergeVaults a).cachedVaults (key.encode owner)).getD []) := by
  show Owns _ _ ((if a.loads then p.device.vaultCache (key.encode owner) else none).getD [])
  split_ifs
  · cases hRows : p.device.vaultCache (key.encode owner) with
    | none => exact Owns.nil _ _
    | some rows => exact h.cached owner rows hRows
  · exact Owns.nil _ _

/-- A use of the phone keeps it consistent with the contract: the ledger goes
on, a list is read and cached, or the app is restarted and its memory is lost.
-/
theorem step (hMerge : Overlays mergeVaults) (h : p.Consistent key) (u : Use contract)
    (hGenuine : p.Genuine key u) : (p.step key mergeVaults u).1.Consistent key := by
  cases u with
  | ledger a =>
      have hEffect := step_effect contract p.world a
      obtain ⟨hSound, hEvolves⟩ := h.sound.effect hEffect
      obtain ⟨hNow, hDated⟩ := created_positive h.started h.dated hEffect
      refine ⟨hSound, h.solvent.effect h.sound.allocated hEffect, hNow, hDated, ?_, ?_⟩
      · intro ev hev
        change ev ∈ emitted (p.past ++ [_]) at hev
        rw [emitted_append] at hev
        rcases List.mem_append.mp hev with hOld | hNew
        · exact (h.about ev hOld).evolves hEvolves
        · exact about_emitted hEffect ev hNew
      · intro owner rows hRows
        exact (h.cached owner rows hRows).evolves h.sound.allocated hSound.allocated hEvolves
  | listVaults owner a =>
      refine ⟨h.sound, h.solvent, h.started, h.dated, h.about, ?_⟩
      intro who rows hRows
      have hLive : Owns p.world.storage owner (liveVaults (p.device.session key mergeVaults a)
          p.world.storage owner ((a.remoteMetas (key.encode owner)).getD [])).2 := by
        refine liveVaults_owns h.sound hMerge owner _ (h.loaded a owner) ?_
        intro events hEvents e he
        obtain ⟨ev, hev, hParsed⟩ := hGenuine events hEvents e he
        exact h.about ev hev e hParsed
      cases hSaved : (if a.saves then (SorobanClient.listVaults
          (p.device.session key mergeVaults a) p.world.storage owner).saved else none) with
      | none =>
          change ((p.device.flag a).save _ _).vaultCache _ = _ at hRows
          rw [hSaved] at hRows
          exact h.cached who rows hRows
      | some saved =>
          change ((p.device.flag a).save _ _).vaultCache _ = _ at hRows
          rw [hSaved] at hRows
          change Function.update p.device.vaultCache _ _ _ = _ at hRows
          by_cases hSame : who = owner
          · subst hSame
            rw [Function.update_self, Option.some.injEq] at hRows
            subst hRows
            split_ifs at hSaved
            simp only [SorobanClient.listVaults] at hSaved
            split_ifs at hSaved
            cases hSaved
            exact hLive
          · rw [Function.update_of_ne fun hText => hSame (key.injective hText)] at hRows
            exact h.cached who rows hRows
  | getVault id ownerHint a => exact ⟨h.sound, h.solvent, h.started, h.dated, h.about, h.cached⟩
  | restart => exact ⟨h.sound, h.solvent, h.started, h.dated, h.about, h.cached⟩

/-- So the phone is consistent after every history that begins with a new phone
and a clock that has started. -/
theorem run (hMerge : Overlays mergeVaults) {g : Genesis contract} (hClock : 0 < g.now)
    {uses : List (Use contract)}
    (hGenuine : Along (Phone.step key mergeVaults) (Phone.Genuine key) (Phone.new g) uses) :
    (final (Phone.step key mergeVaults) (Phone.new g) uses).Consistent key :=
  invariant_along (Phone.step key mergeVaults) (Phone.Consistent key)
    (fun _ u h hAdmissible => h.step hMerge u hAdmissible) (new hClock) hGenuine

/-- A simulated list is the portfolio of the owner and what only the backend
has. -/
theorem listed (hMerge : Overlays mergeVaults) (h : p.Consistent key) (a : ReadAnswers Address)
    (owner : Address) (hSimulates : (p.device.session key mergeVaults a).simulates = true) :
    (listVaults (p.device.session key mergeVaults a) p.world.storage owner).rows.Perm
      (simulatedRows (p.device.session key mergeVaults a) p.world.storage owner) := by
  refine rows_perm h.sound.allocated
    (merged_perm h.sound.allocated hSimulates hMerge (h.loaded a owner)) ?_
  intro v hv
  obtain ⟨hVault, _⟩ := (mem_portfolio h.sound.allocated).mp hv
  exact simulatedRow_dated (h.sound.wellFormed _ v hVault) (h.dated _ v hVault)

theorem formed (h : p.Consistent key) (owner : Address) :
    ∀ v ∈ p.world.storage.portfolio owner, v.WellFormed p.world.now := by
  intro v hv
  exact h.sound.wellFormed _ v ((mem_portfolio h.sound.allocated).mp hv).1

end Phone.Consistent

section Totals

variable (key : StrKey Address) (mergeVaults : List Vault → List Vault → List Vault)

/-- Whatever has happened, a summary whose rows are simulated counts what the
contract stores for the owner at that moment, and its totals add up what is
stored, vault by vault in the order of display; the rows that only the backend
has are counted as completed. -/
theorem summary_exact [Arithmetic] (hMerge : Overlays mergeVaults) {g : Genesis contract}
    (hClock : 0 < g.now) {uses : List (Use contract)}
    (hGenuine : Along (Phone.step key mergeVaults) (Phone.Genuine key) (Phone.new g) uses)
    (owner : Address) (a : ReadAnswers Address) :
    let p := final (Phone.step key mergeVaults) (Phone.new g) uses
    let s := p.device.session key mergeVaults a
    let vaults := p.world.storage.portfolio owner
    s.simulates = true → ∃ locked unlocked : List (XlmVault.Vault Address),
      locked.Perm (shownAs .locked a.nowSec vaults) ∧
      unlocked.Perm (shownAs .unlocked a.nowSec vaults) ∧
      summary s p.world.storage owner =
        { totalLocked := Arithmetic.sumFrom 0 (locked.map fun v => stroopsToXlm v.balance.val)
          totalUnlocked := Arithmetic.sumFrom 0 (unlocked.map fun v => stroopsToXlm v.balance.val)
          totalWithdrawn := 0
          activeVaults :=
            (shownAs .locked a.nowSec vaults).length + (shownAs .unlocked a.nowSec vaults).length
          completedVaults := (shownAs .withdrawn a.nowSec vaults).length +
            (foreignMetas s p.world.storage owner).length } := by
  intro p s vaults hSimulates
  have hConsistent : p.Consistent key := Phone.Consistent.run hMerge hClock hGenuine
  have hRows := hConsistent.listed hMerge a owner hSimulates
  obtain ⟨locked, hLocked, hLockedSum⟩ := balances_listed (Or.inl rfl) hRows
  obtain ⟨unlocked, hUnlocked, hUnlockedSum⟩ := balances_listed (Or.inr rfl) hRows
  refine ⟨locked, unlocked, hLocked, hUnlocked, ?_⟩
  rw [summary_eq, hLockedSum, hUnlockedSum, count_listed (Or.inl rfl) hRows,
    count_listed (Or.inr rfl) hRows, completed_listed hRows]
  rfl

omit [DecidableEq Address] in
/-- What is shown in use to an owner is the savings of the owner. -/
theorem stored_in_use {vaults : List (XlmVault.Vault Address)} {now : UInt64}
    (hForm : ∀ v ∈ vaults, v.WellFormed now) (nowSec : Int) :
    stored (shownAs .locked nowSec vaults) + stored (shownAs .unlocked nowSec vaults) =
      stored vaults := by
  induction vaults with
  | nil => rfl
  | cons v vaults ih =>
      have hRest := ih fun u hu => hForm u (List.mem_cons_of_mem v hu)
      cases hStatus : statusFor v nowSec with
      | locked =>
          simp only [stored, shownAs, List.filter_cons, hStatus] at hRest ⊢
          simp
          omega
      | unlocked =>
          simp only [stored, shownAs, List.filter_cons, hStatus] at hRest ⊢
          simp
          omega
      | withdrawn =>
          have hDone : v.withdrawn = true := by
            by_contra hLive
            unfold statusFor at hStatus
            rw [if_neg hLive] at hStatus
            split_ifs at hStatus
          have hEmpty : v.balance.val = 0 :=
            (hForm v List.mem_cons_self).empty_iff_withdrawn.mpr hDone
          simp only [stored, shownAs, List.filter_cons, hStatus] at hRest ⊢
          simp
          omega
      | archived => exact absurd hStatus (statusFor_ne_archived v nowSec)

section Double

attribute [local instance] Arithmetic.double

/-- One total of the summary, converted back to stroops. -/
theorem Phone.Consistent.total_listed {p : Phone contract} (h : p.Consistent key)
    {s : Session Address} {owner : Address} {status : Status}
    (hUse : status = .locked ∨ status = .unlocked)
    (hRows : (listVaults s p.world.storage owner).rows.Perm
      (simulatedRows s p.world.storage owner))
    (hFew : ((p.world.storage.portfolio owner).length + 3) * p.world.storage.savings owner < 2 ^ 51) :
    xlmToStroops (Arithmetic.sumFrom 0
        (balances status (listVaults s p.world.storage owner).rows)) =
      stored (shownAs status s.nowSec (p.world.storage.portfolio owner)) := by
  have hForm := h.formed owner
  obtain ⟨vaults, hPerm, hSum⟩ := balances_listed hUse hRows
  have hPart : stored (shownAs status s.nowSec (p.world.storage.portfolio owner)) ≤
      p.world.storage.savings owner := by
    refine List.Sublist.sum_le_sum (List.filter_sublist.map _) ?_
    intro n hn
    obtain ⟨v, hv, rfl⟩ := List.mem_map.mp hn
    exact (hForm v hv).balance_nonneg
  have hLength : (shownAs status s.nowSec (p.world.storage.portfolio owner)).length ≤
      (p.world.storage.portfolio owner).length := List.length_filter_le _ _
  have hNonneg : 0 ≤ stored (shownAs status s.nowSec (p.world.storage.portfolio owner)) := by
    refine List.sum_nonneg fun n hn => ?_
    obtain ⟨v, hv, rfl⟩ := List.mem_map.mp hn
    exact (hForm v (List.mem_filter.mp hv).1).balance_nonneg
  rw [hSum]
  refine xlmToStroops_stored hPerm ?_ ?_
  · intro v hv
    exact (hForm v (List.mem_filter.mp hv).1).balance_nonneg
  · refine lt_of_le_of_lt (mul_le_mul ?_ hPart hNonneg ?_) hFew <;> omega

/-- In double precision the totals are converted back to the stored numbers of
stroops, as long as these times the number of vaults stay below `2 ^ 51`. -/
theorem rounded_summary_exact (hMerge : Overlays mergeVaults) {g : Genesis contract}
    (hClock : 0 < g.now) {uses : List (Use contract)}
    (hGenuine : Along (Phone.step key mergeVaults) (Phone.Genuine key) (Phone.new g) uses)
    (owner : Address) (a : ReadAnswers Address) :
    let p := final (Phone.step key mergeVaults) (Phone.new g) uses
    let s := p.device.session key mergeVaults a
    let vaults := p.world.storage.portfolio owner
    s.simulates = true → (vaults.length + 3) * p.world.storage.savings owner < 2 ^ 51 →
      xlmToStroops (summary s p.world.storage owner).totalLocked =
        stored (shownAs .locked a.nowSec vaults) ∧
      xlmToStroops (summary s p.world.storage owner).totalUnlocked =
        stored (shownAs .unlocked a.nowSec vaults) := by
  intro p s vaults hSimulates hFew
  have hConsistent : p.Consistent key := Phone.Consistent.run hMerge hClock hGenuine
  have hRows := hConsistent.listed hMerge a owner hSimulates
  rw [summary_eq]
  exact ⟨hConsistent.total_listed key (Or.inl rfl) hRows hFew,
    hConsistent.total_listed key (Or.inr rfl) hRows hFew⟩

/-- Whatever the backend says and whatever was cached, what the summaries of
any owners show in use, each total as the number of stroops that it stands for,
is in the contract's account. -/
theorem dashboards_covered (hMerge : Overlays mergeVaults) {g : Genesis contract}
    (hClock : 0 < g.now) {uses : List (Use contract)}
    (hGenuine : Along (Phone.step key mergeVaults) (Phone.Genuine key) (Phone.new g) uses)
    (owners : Finset Address) (answers : Address → ReadAnswers Address) (token : Address) :
    let p := final (Phone.step key mergeVaults) (Phone.new g) uses
    let shown := fun a =>
      summary (p.device.session key mergeVaults (answers a)) p.world.storage a
    p.world.storage.token = some token →
      (∀ a ∈ owners, (p.device.session key mergeVaults (answers a)).simulates = true ∧
        ((p.world.storage.portfolio a).length + 3) * p.world.storage.savings a < 2 ^ 51) →
      ∑ a ∈ owners, (xlmToStroops (shown a).totalLocked + xlmToStroops (shown a).totalUnlocked) ≤
        p.world.ledger token contract := by
  intro p shown hToken hShown
  have hConsistent : p.Consistent key := Phone.Consistent.run hMerge hClock hGenuine
  have hOwn (a : Address) (ha : a ∈ owners) :
      xlmToStroops (shown a).totalLocked + xlmToStroops (shown a).totalUnlocked =
        p.world.storage.savings a := by
    obtain ⟨hSimulates, hFew⟩ := hShown a ha
    have hRows := hConsistent.listed hMerge (answers a) a hSimulates
    simp only [shown]
    rw [summary_eq]
    simp only
    rw [hConsistent.total_listed key (Or.inl rfl) hRows hFew,
      hConsistent.total_listed key (Or.inr rfl) hRows hFew]
    exact stored_in_use (hConsistent.formed a) _
  rw [Finset.sum_congr rfl hOwn, hConsistent.solvent.ledger_eq hToken]
  have hSavings := sum_savings_le_locked hConsistent.sound owners
  have hDirect := directTransfers_nonneg token p.past
  show ∑ a ∈ owners, p.world.storage.savings a ≤ _
  omega

end Double

end Totals

section Sample

attribute [local instance] Arithmetic.double

theorem overlays_mergeById : Overlays mergeById where
  live _ _ _ hv := List.mem_append_left _ hv
  origin cached rows v hv := by
    rcases List.mem_append.mp hv with hv | hv
    · exact Or.inl hv
    · obtain ⟨hCached, hNew⟩ := List.mem_filter.mp hv
      refine Or.inr ⟨hCached, fun r hr hSame => of_decide_eq_true hNew ?_⟩
      rw [← hSame]
      exact List.mem_map_of_mem hr
  once cached rows hCached hRows := by
    unfold mergeById
    rw [List.map_append, List.nodup_append]
    refine ⟨hRows, hCached.sublist (List.filter_sublist.map _), ?_⟩
    rintro id hLive id' hKept rfl
    obtain ⟨v, hv, hId⟩ := List.mem_map.mp hKept
    have hNew := of_decide_eq_true (List.mem_filter.mp hv).2
    rw [hId] at hNew
    exact hNew hLive

def dayGenesis : Genesis (0 : Nat) := { sampleGenesis with now := 1767200000 }

/-- A call of the phone, which reads by simulation or by events. -/
def phoneAnswers (simulates : Bool) : ReadAnswers Nat where
  simulates := simulates
  xdrParseError := true
  events := some [noonEvent]
  remoteMetas _ := some [archivedMeta]
  loadMeta _ _ := emptyMeta
  scU64 _ := none
  nowSec := 1767240000
  loads := true
  saves := true

/-- The noon run on a day that has already begun, a reading of its event and a
restart. -/
def phoneUses : List (Use (0 : Nat)) :=
  (noonRun.eraseIdx 1).map .ledger ++ [.listVaults 7 (phoneAnswers false), .restart]

theorem phoneUses_genuine :
    Along (Phone.step numbered mergeById) (Phone.Genuine numbered) (Phone.new dayGenesis)
      phoneUses := by
  refine ⟨trivial, trivial, ?_, trivial, trivial⟩
  intro events hEvents e he
  cases hEvents
  rw [List.mem_singleton.mp he]
  refine ⟨⟨⟨[.symbol "create", .address 7], [.u64 0, .i128 ⟨700, by decide, by decide⟩,
    .u64 1767268800]⟩, 1767200000⟩, List.mem_singleton.mpr rfl, ?_⟩
  rw [parse_create]
  rfl

/-- What the contract holds for address 7 at the end of the uses: the phone has
listed the vault from its events, was restarted, and simulates from then on. -/
theorem phone_portfolio :
    (final (Phone.step numbered mergeById) (Phone.new dayGenesis) phoneUses).world.storage.portfolio 7 =
      [⟨0, 7, "Rent", ⟨700, by decide, by decide⟩, 1767268800, 1767200000, false⟩] := rfl

theorem summary_exact_phone :
    let p := final (Phone.step numbered mergeById) (Phone.new dayGenesis) phoneUses
    ∃ locked unlocked : List (XlmVault.Vault Nat),
      locked.Perm [⟨0, 7, "Rent", ⟨700, by decide, by decide⟩, 1767268800, 1767200000, false⟩] ∧
      unlocked.Perm [] ∧
      summary (p.device.session numbered mergeById (phoneAnswers true)) p.world.storage 7 =
        ⟨Arithmetic.sumFrom 0 (locked.map fun v => stroopsToXlm v.balance.val),
          Arithmetic.sumFrom 0 (unlocked.map fun v => stroopsToXlm v.balance.val), 0, 1, 1⟩ := by
  intro p
  have hTotals := summary_exact numbered mergeById overlays_mergeById (g := dayGenesis) (by decide)
    phoneUses_genuine 7 (phoneAnswers true) rfl
  simp only [phone_portfolio] at hTotals
  exact hTotals

theorem rounded_summary_exact_phone :
    let p := final (Phone.step numbered mergeById) (Phone.new dayGenesis) phoneUses
    xlmToStroops (summary (p.device.session numbered mergeById (phoneAnswers true))
      p.world.storage 7).totalLocked = 700 := by
  intro p
  exact (rounded_summary_exact numbered mergeById overlays_mergeById (g := dayGenesis) (by decide)
    phoneUses_genuine 7 (phoneAnswers true) rfl (by decide)).1

theorem dashboards_covered_phone :
    let p := final (Phone.step numbered mergeById) (Phone.new dayGenesis) phoneUses
    let shown := fun a =>
      summary (p.device.session numbered mergeById (phoneAnswers true)) p.world.storage a
    ∑ a ∈ ({7, 8} : Finset Nat),
      (xlmToStroops (shown a).totalLocked + xlmToStroops (shown a).totalUnlocked) ≤
        p.world.ledger 1 0 :=
  dashboards_covered numbered mergeById overlays_mergeById (g := dayGenesis) (by decide)
    phoneUses_genuine {7, 8} (fun _ => phoneAnswers true) 1 rfl (by decide)

end Sample

end SorobanClient
