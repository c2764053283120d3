import StellarTimelock.Client.StatusSoundness

/-! The rows of the events fallback are the stored vaults of their owner: the
same ids, each once, with the stored balance, withdrawal flag and creation
time. -/
namespace SorobanClient

open XlmVault Execution FloatingPoint

variable {Address : Type} {contract : Address}

/-! What has been paid into a vault. -/

/-- Only positive amounts are paid in, and a vault that has not been withdrawn
holds their sum. -/
structure Settled (past : List (Receipt Address)) (w : World Address) : Prop where
  positive : ∀ id, ∀ n ∈ paidIn past id, 0 < n
  balance : ∀ id v, w.storage.vault id = some v → v.withdrawn = false →
    (paidIn past id).sum = v.balance.val

/-- Before the first call nothing has been paid and there is no vault, which is
as it should be. -/
theorem Settled.genesis (g : Genesis contract) : Settled [] g.world := by
  refine ⟨fun id n hn => absurd hn List.not_mem_nil, ?_⟩
  intro id v hVault
  cases hVault

/-- A call that pays nothing and changes no balance of a vault that is left. -/
theorem Settled.quiet {past past' : List (Receipt Address)} {w w' : World Address}
    (h : Settled past w) (hPast : ∀ id, paidIn past' id = paidIn past id)
    (hKept : ∀ id v, w'.storage.vault id = some v → v.withdrawn = false →
      ∃ before, w.storage.vault id = some before ∧ before.withdrawn = false ∧
        before.balance = v.balance) : Settled past' w' := by
  constructor
  · intro id n hn
    rw [hPast] at hn
    exact h.positive id n hn
  · intro id v hVault hLive
    obtain ⟨before, hBefore, hWasLive, hSame⟩ := hKept id v hVault hLive
    rw [hPast, h.balance id before hBefore hWasLive, hSame]

/-- A call that pays one amount into one vault keeps the payments and the
balances in step, as it adds the amount to both. -/
theorem Settled.pay {past : List (Receipt Address)} {r : Receipt Address} {w w' : World Address}
    (h : Settled past w) {id : UInt64} {amount : Int} {v : XlmVault.Vault Address}
    (hPay : pays id r = some amount) (hOther : ∀ k, k ≠ id → pays k r = none) (hAmount : 0 < amount)
    (hVault : w'.storage.vault id = some v) (hSum : (paidIn past id).sum + amount = v.balance.val)
    (hKept : ∀ k, k ≠ id → w'.storage.vault k = w.storage.vault k) :
    Settled (past ++ [r]) w' := by
  constructor
  · intro k n hn
    by_cases hk : k = id
    · rw [hk, paidIn_concat, hPay] at hn
      rcases List.mem_append.mp hn with hn | hn
      · exact h.positive id n hn
      · rw [List.mem_singleton.mp hn]
        exact hAmount
    · rw [paidIn_concat_none (hOther k hk)] at hn
      exact h.positive k n hn
  · intro k u hStored hLive
    by_cases hk : k = id
    · subst hk
      cases hVault.symm.trans hStored
      rw [paidIn_concat, hPay]
      simpa using hSum
    · rw [paidIn_concat_none (hOther k hk)]
      exact h.balance k u ((hKept k hk).symm.trans hStored) hLive

/-- Each of the effects that an action can have keeps the payments of the
history and the balances of the storage in step. -/
theorem Settled.effect [DecidableEq Address] {past : List (Observation contract)}
    {w w' : World Address} {o : Observation contract} (hAllocated : Allocated w.storage)
    (hUnpaid : ∀ id, w.storage.vault id = none → paidIn (receipts past) id = [])
    (h : Settled (receipts past) w) (hEffect : Effect contract w w' o) :
    Settled (receipts (past ++ [o])) w' := by
  cases hEffect with
  | failed call failure =>
      rw [receipts_invoked]
      refine h.quiet (fun id => paidIn_concat_none (by cases call <;> rfl)) ?_
      exact fun id v hVault hLive => ⟨v, hVault, hLive, rfl⟩
  | initialised token =>
      rw [receipts_invoked]
      exact h.quiet (fun id => paidIn_concat_none rfl)
        (fun id v hVault hLive => ⟨v, hVault, hLive, rfl⟩)
  | created token owner name d u id next hOwner hAmount hTime hToken hId =>
      have hFresh : w.storage.vault id = none := by
        rw [hId]
        exact hAllocated.fresh hToken
      rw [receipts_invoked]
      refine h.pay (if_pos rfl) (fun k hk => if_neg (Ne.symm hk)) hAmount
        (Function.update_self id _ _) ?_ (fun k hk => Function.update_of_ne hk _ _)
      rw [hUnpaid id hFresh]
      exact Int.zero_add d.val
  | deposited token caller id amount balance v hCaller hAmount hVault hOwner hLive hToken hBalance =>
      rw [receipts_invoked]
      refine h.pay (if_pos rfl) (fun k hk => if_neg (Ne.symm hk)) hAmount
        (Function.update_self id _ _) ?_ (fun k hk => Function.update_of_ne hk _ _)
      rw [h.balance id v hVault hLive]
      exact (I128.checkedAdd_eq_some.mp hBalance).symm
  | extended caller id seconds u v hSeconds hVault hOwner hLive =>
      rw [receipts_invoked]
      refine h.quiet (fun k => paidIn_concat_none rfl) ?_
      intro k v' hWritten hLive'
      by_cases hk : k = id
      · subst hk
        simp only [World.putVault, Function.update_self, Option.some.injEq] at hWritten
        exact ⟨v, hVault, hLive, by rw [← hWritten]⟩
      · simp only [World.putVault, Function.update_of_ne hk] at hWritten
        exact ⟨v', hWritten, hLive', rfl⟩
  | withdrawn token caller id v hCaller hVault =>
      rw [receipts_invoked]
      refine h.quiet (fun k => paidIn_concat_none rfl) ?_
      intro k v' hWritten hLive'
      by_cases hk : k = id
      · subst hk
        simp only [World.putVault, World.transfer, Function.update_self, Option.some.injEq]
          at hWritten
        rw [← hWritten] at hLive'
        cases hLive'
      · simp only [World.putVault, World.transfer, Function.update_of_ne hk] at hWritten
        exact ⟨v', hWritten, hLive', rfl⟩
  | advanced timestamp =>
      rw [receipts_advanced]
      exact ⟨h.positive, h.balance⟩
  | outside t =>
      rw [receipts_moved]
      exact ⟨h.positive, h.balance⟩

/-- After every run the payments of a vault that is still held add up to its
stored balance, and all of them are positive. -/
theorem Settled.reachable [DecidableEq Address] (g : Genesis contract)
    (as : List (Action contract)) :
    Settled (receipts (trace (step contract) g.world as)) (final (step contract) g.world as) := by
  refine (history_invariant (step contract) (fun past w => Allocated w.storage ∧
    (∀ id, w.storage.vault id = none → paidIn (receipts past) id = []) ∧
    Settled (receipts past) w) ⟨Allocated.genesis g, fun _ _ => rfl, Settled.genesis g⟩ ?_ as).2.2
  rintro past w a ⟨hAllocated, hUnpaid, hSettled⟩
  have hEffect := step_effect contract w a
  exact ⟨hAllocated.effect hEffect, unpicked_effect pays hUnpaid hEffect
    fun _ hInvoked _ hUnused => (untouched_effect hEffect hInvoked hUnused).2,
    hSettled.effect hAllocated hUnpaid hEffect⟩

section Exact

attribute [local instance] Arithmetic.exact

/-- In exact arithmetic the conversion to XLM loses nothing. -/
theorem stroopsToXlm_exact (stroops : Int) : stroopsToXlm stroops * stroopsPerXlm = stroops :=
  div_mul_cancel₀ _ (by decide)

/-- In exact arithmetic the XLM of a sum of stroops are the sum of the XLM. -/
theorem stroopsToXlm_add (a b : Int) : stroopsToXlm (a + b) = stroopsToXlm a + stroopsToXlm b := by
  show ((a + b : Int) : Rat) / stroopsPerXlm = a / stroopsPerXlm + b / stroopsPerXlm
  push_cast
  ring

/-- Therefore summing the converted amounts and converting the summed amounts
agree, which is not so for the doubles of the code. -/
theorem sumFrom_stroopsToXlm (start : Int) (xs : List Int) :
    Arithmetic.sumFrom (stroopsToXlm start) (xs.map stroopsToXlm) = stroopsToXlm (start + xs.sum) := by
  unfold Arithmetic.sumFrom
  induction xs generalizing start with
  | nil => rw [List.sum_nil, Int.add_zero]; rfl
  | cons x xs ih =>
      have hAdd : Arithmetic.add (stroopsToXlm start) (stroopsToXlm x) = stroopsToXlm (start + x) :=
        (stroopsToXlm_add start x).symm
      rw [List.map_cons, List.foldl_cons, hAdd, ih, List.sum_cons, Int.add_assoc]

/-- Without rounding, the payments add up to the XLM of their sum. -/
theorem tally_exact (past : List (Receipt Address)) (id : UInt64) :
    tally past id = stroopsToXlm (paidIn past id).sum := by
  have hSum := sumFrom_stroopsToXlm 0 (paidIn past id)
  rw [stroopsToXlm_zero, Int.zero_add] at hSum
  exact hSum

end Exact

/-- What the row of a stored vault shows of it. -/
structure Shows (row : Vault) (v : XlmVault.Vault Address) : Prop where
  balance : row.balance * stroopsPerXlm = v.balance.val
  withdrawn : row.status = .withdrawn ↔ v.withdrawn = true
  created : row.createdTimestamp = v.createdTimestamp.toNat

/-- Two owners at work: addresses 7 and 8 create vaults in turn and top them up,
and address 7 puts one of its two off and empties the other. -/
def busyRun : List (Action (0 : Nat)) :=
  [.invoke everyone willing (.init 1), .advance 1767200000,
    .invoke everyone willing (.createVault 7 "Rent" ⟨811, by decide, by decide⟩ 1767268800),
    .invoke everyone willing (.createVault 8 "Car" ⟨47, by decide, by decide⟩ 1767200100),
    .invoke everyone willing (.deposit 7 0 ⟨29, by decide, by decide⟩),
    .invoke everyone willing (.createVault 7 "Tax" ⟨61, by decide, by decide⟩ 1767200050),
    .invoke everyone willing (.extendLock 7 0 86400),
    .advance 1767200090,
    .invoke everyone willing (.withdraw 7 2),
    .invoke everyone willing (.deposit 8 1 ⟨3, by decide, by decide⟩),
    .invoke everyone willing (.deposit 7 0 ⟨31, by decide, by decide⟩)]

/-- What the client is sent of it. -/
def busyEvents [Arithmetic] : List ParsedEvent :=
  [⟨"0", "7", .create, stroopsToXlm 811, "unlock 2026-01-01", 1767200000⟩,
    ⟨"1", "8", .create, stroopsToXlm 47, "unlock 2025-12-31", 1767200000⟩,
    ⟨"0", "7", .deposit, stroopsToXlm 29, "", 1767200000⟩,
    ⟨"2", "7", .create, stroopsToXlm 61, "unlock 2025-12-31", 1767200000⟩,
    ⟨"0", "7", .extend, 0, "new unlock 2026-01-02", 1767200000⟩,
    ⟨"2", "7", .withdraw, stroopsToXlm 61, "", 1767200090⟩,
    ⟨"1", "8", .deposit, stroopsToXlm 3, "", 1767200090⟩,
    ⟨"0", "7", .deposit, stroopsToXlm 31, "", 1767200090⟩]

theorem parse_busyRun [Arithmetic] :
    parseEvents numbered (emitted (trace (step (0 : Nat)) sampleGenesis.world busyRun)) =
      .ok busyEvents := by
  have hEmitted : emitted (trace (step (0 : Nat)) sampleGenesis.world busyRun) =
      [⟨⟨[.symbol "create", .address 7], [.u64 0, .i128 ⟨811, by decide, by decide⟩,
          .u64 1767268800]⟩, 1767200000⟩,
        ⟨⟨[.symbol "create", .address 8], [.u64 1, .i128 ⟨47, by decide, by decide⟩,
          .u64 1767200100]⟩, 1767200000⟩,
        ⟨⟨[.symbol "deposit", .address 7], [.u64 0, .i128 ⟨29, by decide, by decide⟩]⟩, 1767200000⟩,
        ⟨⟨[.symbol "create", .address 7], [.u64 2, .i128 ⟨61, by decide, by decide⟩,
          .u64 1767200050]⟩, 1767200000⟩,
        ⟨⟨[.symbol "extend", .address 7], [.u64 0, .u64 1767355200]⟩, 1767200000⟩,
        ⟨⟨[.symbol "withdraw", .address 7], [.u64 2, .i128 ⟨61, by decide, by decide⟩]⟩, 1767200090⟩,
        ⟨⟨[.symbol "deposit", .address 8], [.u64 1, .i128 ⟨3, by decide, by decide⟩]⟩, 1767200090⟩,
        ⟨⟨[.symbol "deposit", .address 7], [.u64 0, .i128 ⟨31, by decide, by decide⟩]⟩,
          1767200090⟩] := rfl
  rw [hEmitted]
  simp only [parseEvents, parse_create, parse_extend]
  rfl

section Refinement

attribute [local instance] Arithmetic.exact

/-- An accumulator that agrees with a well-formed vault is shown as that vault. -/
theorem accumOf_shows {past : List (Receipt Address)} {s : Storage Address} {id now : UInt64}
    {v : XlmVault.Vault Address} (hVault : s.vault id = some v) (hForm : v.WellFormed now)
    (hPaid : v.withdrawn = false → (paidIn past id).sum = v.balance.val) (owner : String) (nowSec : Int) (offMeta : VaultMeta) :
    Shows ((accumOf past s id).row owner nowSec offMeta none) v := by
  rw [accumOf_stored hVault]
  constructor
  · show (if (v.withdrawn || false) = true then (0 : Rat)
      else if v.withdrawn then 0 else tally past id) * _ = _
    rw [Bool.or_false]
    split_ifs with hDone
    · rw [hForm.empty_iff_withdrawn.mpr hDone]
      simp
    · rw [tally_exact, hPaid (Bool.eq_false_of_not_eq_true hDone)]
      exact stroopsToXlm_exact v.balance.val
  · rw [Accum.row_status]
    split_ifs with hDone hDue
    · exact iff_of_true rfl hDone
    · exact iff_of_false (fun h => by cases h) hDone
    · exact iff_of_false (fun h => by cases h) hDone
  · show (if 0 < (v.createdTimestamp.toNat : Int) then (v.createdTimestamp.toNat : Int) else 0) = _
    split_ifs <;> omega

variable [DecidableEq Address]

/-- After every run whose events parse, the fallback lists for every owner
exactly one row for each id the contract lists for that owner, and no other
row; each shows what the contract stores under its id. -/
theorem replay_refines (key : StrKey Address) (loadMeta : String → VaultMeta) (nowSec : Int)
    (g : Genesis contract) (as : List (Action contract)) (owner : Address)
    {events : List ParsedEvent}
    (hEvents : parseEvents key (emitted (trace (step contract) g.world as)) = .ok events) :
    let s := (final (step contract) g.world as).storage
    let rows := aggregateVaultsFromEvents loadMeta nowSec events (key.encode owner) (fun _ => none)
    (rows.map (·.vaultId)).Perm ((s.listOwned owner).map idText) ∧
      (rows.map (·.vaultId)).Nodup ∧
      ∀ row ∈ rows, ∃ id v, row.vaultId = idText id ∧ s.vault id = some v ∧ v.owner = owner ∧
        Shows row v := by
  intro s rows
  have hTracked := Tracked.reachable key g as
  have hSettled := Settled.reachable g as
  have hSound : (final (step contract) g.world as).Sound := World.Sound.reachable g as
  have hReplay := (hTracked.mirrors events hEvents).replay_eq owner
  have hSort : (rows.map (·.vaultId)).Perm (((replay events (key.encode owner)).map fun v =>
      v.row (key.encode owner) nowSec (loadMeta v.vaultId) none).map (·.vaultId)) :=
    (List.perm_insertionSort _ _).map _
  have hTexts : ((replay events (key.encode owner)).map fun v =>
      v.row (key.encode owner) nowSec (loadMeta v.vaultId) none).map (·.vaultId) =
        (s.listOwned owner).map idText := by
    rw [hReplay, List.map_map, List.map_map]
    rfl
  have hIds : (rows.map (·.vaultId)).Perm ((s.listOwned owner).map idText) := by
    rw [hTexts] at hSort
    exact hSort
  have hOnce : (s.listOwned owner).Nodup :=
    (hTracked.allocated.increasing owner).imp (fun h => UInt64.ne_of_lt h)
  have hOwned : ((s.listOwned owner).map idText).Nodup := hOnce.map idText_injective
  refine ⟨hIds, hIds.nodup_iff.mpr hOwned, ?_⟩
  intro row hRow
  obtain ⟨a, ha, rfl⟩ := mem_aggregate.mp hRow
  rw [hReplay] at ha
  obtain ⟨id, hid, rfl⟩ := List.mem_map.mp ha
  obtain ⟨v, hVault, hOwner⟩ := (hTracked.allocated.indexed owner id).mp hid
  exact ⟨id, v, rfl, hVault, hOwner, accumOf_shows hVault (hSound.wellFormed id v hVault)
    (hSettled.balance id v hVault) _ _ _⟩

/-- Of the three vaults two are listed: the one that was topped up with all it
holds, the emptied one as withdrawn. -/
theorem replay_refines_busy :
    let rows := aggregateVaultsFromEvents (fun _ => emptyMeta) 1767225600 busyEvents
      (numbered.encode 7) (fun _ => none)
    (rows.map (·.vaultId)).Perm ["0", "2"] ∧
      (∃ row ∈ rows, row.vaultId = "0" ∧
        Shows row (⟨0, 7, "Rent", ⟨871, by decide, by decide⟩, 1767355200, 1767200000, false⟩ :
          XlmVault.Vault Nat)) ∧
      ∃ row ∈ rows, row.vaultId = "2" ∧
        Shows row (⟨2, 7, "Tax", 0, 1767200050, 1767200000, true⟩ : XlmVault.Vault Nat) := by
  intro rows
  obtain ⟨hPerm, _, hShows⟩ := replay_refines numbered (fun _ => emptyMeta) 1767225600
    sampleGenesis busyRun 7 parse_busyRun
  have hRow (id : UInt64) (v : XlmVault.Vault Nat)
      (hListed : id ∈ (final (step (0 : Nat)) sampleGenesis.world busyRun).storage.listOwned 7)
      (hVault : (final (step (0 : Nat)) sampleGenesis.world busyRun).storage.vault id = some v) :
      ∃ row ∈ rows, row.vaultId = idText id ∧ Shows row v := by
    obtain ⟨row, hMem, hId⟩ := List.mem_map.mp (hPerm.mem_iff.mpr (List.mem_map_of_mem hListed))
    obtain ⟨k, u, hText, hStored, _, hShown⟩ := hShows row hMem
    have hSame : k = id := idText_injective (hText.symm.trans hId)
    subst hSame
    cases hVault.symm.trans hStored
    exact ⟨row, hMem, hId, hShown⟩
  exact ⟨hPerm, hRow 0 _ (by decide) rfl, hRow 2 _ (by decide) rfl⟩

end Refinement

end SorobanClient
