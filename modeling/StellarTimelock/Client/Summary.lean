import StellarTimelock.Client.Listing
import StellarTimelock.Client.Amounts
import StellarTimelock.Contract.Wealth

/-! `summary`: the totals over the rows of `listVaults`. When the rows are
simulated and the cache holds no foreign id, they are the totals of what the
contract stores for the owner. -/
namespace SorobanClient

open XlmVault Execution FloatingPoint StableSort

variable {Address : Type}

structure Summary where
  totalLocked : Rat
  totalUnlocked : Rat
  totalWithdrawn : Rat
  activeVaults : Nat
  completedVaults : Nat
  deriving DecidableEq

section Loop

variable [Arithmetic]

/-- One round of the loop. What was withdrawn is not tracked. -/
def Summary.count (t : Summary) (v : Vault) : Summary :=
  match v.status with
  | .locked =>
      { t with
        totalLocked := Arithmetic.add t.totalLocked v.balance
        activeVaults := t.activeVaults + 1 }
  | .unlocked =>
      { t with
        totalUnlocked := Arithmetic.add t.totalUnlocked v.balance
        activeVaults := t.activeVaults + 1 }
  | .withdrawn | .archived => { t with completedVaults := t.completedVaults + 1 }

def summary (s : Session Address) (storage : Storage Address) (owner : Address) : Summary :=
  (listVaults s storage owner).rows.foldl Summary.count ⟨0, 0, 0, 0, 0⟩

end Loop

/-- The rows of one status. -/
def rowsOf (status : Status) (rows : List Vault) : List Vault :=
  rows.filter fun v => v.status = status

/-- The balances that one of the two totals adds up. -/
def balances (status : Status) (rows : List Vault) : List Rat :=
  (rowsOf status rows).map (·.balance)

/-- The loop of `summary` over some rows: each total is added up from where it
stood, over the rows of its status in their order, and the others are counted.
-/
theorem foldl_count [Arithmetic] (rows : List Vault) (t : Summary) :
    rows.foldl Summary.count t =
      ⟨Arithmetic.sumFrom t.totalLocked (balances .locked rows),
        Arithmetic.sumFrom t.totalUnlocked (balances .unlocked rows), t.totalWithdrawn,
        t.activeVaults + ((rowsOf .locked rows).length + (rowsOf .unlocked rows).length),
        t.completedVaults + ((rowsOf .withdrawn rows).length + (rowsOf .archived rows).length)⟩ := by
  induction rows generalizing t with
  | nil => rfl
  | cons v rows ih =>
      rw [List.foldl_cons, ih]
      cases hStatus : v.status with
      | locked =>
          simp [Summary.count, balances, rowsOf, Arithmetic.sumFrom, hStatus]
          omega
      | unlocked =>
          simp [Summary.count, balances, rowsOf, Arithmetic.sumFrom, hStatus]
          omega
      | withdrawn =>
          simp [Summary.count, balances, rowsOf, hStatus]
          omega
      | archived =>
          simp [Summary.count, balances, rowsOf, hStatus]
          omega

/-- So `summary` is a function of the rows of each status in the list that it
asks for. -/
theorem summary_eq [Arithmetic] (s : Session Address) (storage : Storage Address) (owner : Address) :
    let rows := (listVaults s storage owner).rows
    summary s storage owner =
      ⟨Arithmetic.sumFrom 0 (balances .locked rows), Arithmetic.sumFrom 0 (balances .unlocked rows), 0,
        (rowsOf .locked rows).length + (rowsOf .unlocked rows).length,
        (rowsOf .withdrawn rows).length + (rowsOf .archived rows).length⟩ := by
  intro rows
  unfold summary
  rw [foldl_count]
  simp [rows]

theorem rowsOf_perm {status : Status} {first second : List Vault} (h : first.Perm second) :
    (rowsOf status first).Perm (rowsOf status second) := h.filter _

theorem rowsOf_append (status : Status) (first second : List Vault) :
    rowsOf status (first ++ second) = rowsOf status first ++ rowsOf status second := by
  unfold rowsOf
  exact List.filter_append first second

/-- What `mergeVaults` does: every live row is kept as it is, the cache adds
only ids that the live rows do not have, and no id is made double. -/
structure Overlays (mergeVaults : List Vault → List Vault → List Vault) : Prop where
  live : ∀ cached rows, ∀ v ∈ rows, v ∈ mergeVaults cached rows
  origin : ∀ cached rows, ∀ v ∈ mergeVaults cached rows,
    v ∈ rows ∨ v ∈ cached ∧ ∀ r ∈ rows, r.vaultId ≠ v.vaultId
  once : ∀ cached rows, (cached.map (·.vaultId)).Nodup → (rows.map (·.vaultId)).Nodup →
    ((mergeVaults cached rows).map (·.vaultId)).Nodup

/-- The cached rows of an owner are of vaults that the owner has, each once. -/
structure Owns (storage : Storage Address) (owner : Address) (rows : List Vault) : Prop where
  owned : ∀ v ∈ rows, ∃ id ∈ storage.listOwned owner, v.vaultId = idText id
  once : (rows.map (·.vaultId)).Nodup

section Simulated

variable [Arithmetic] {s : Session Address} {storage : Storage Address} {owner : Address}

/-- The row of one stored vault. -/
def simulatedRow (s : Session Address) (owner : Address) (v : XlmVault.Vault Address) : Vault :=
  toVault s.key s.nowSec v (s.loadMeta (s.key.encode owner) (idText v.vaultId))

omit [Arithmetic] in
/-- Where every element has an image, looking them all up is keeping those that
can be looked up. -/
theorem mapM_filterMap {α β : Type} {f : α → Option β} {xs : List α}
    (h : ∀ x ∈ xs, ∃ y, f x = some y) : xs.mapM f = some (xs.filterMap f) := by
  induction xs with
  | nil => rfl
  | cons x xs ih =>
      obtain ⟨y, hy⟩ := h x List.mem_cons_self
      simp [List.mapM_cons, hy, ih fun z hz => h z (List.mem_cons_of_mem x hz)]

/-- The simulate path reads the portfolio of the owner. -/
theorem simulateList_eq (hAllocated : Allocated storage) (hSimulates : s.simulates = true) :
    simulateList s storage owner =
      some ((storage.portfolio owner).map (simulatedRow s owner)) := by
  unfold simulateList
  rw [if_pos hSimulates, mapM_filterMap, Storage.portfolio, List.map_filterMap]
  · rfl
  · intro id hid
    obtain ⟨v, hVault, _⟩ := (hAllocated.indexed owner id).mp hid
    exact ⟨simulatedRow s owner v, by rw [hVault]; rfl⟩

theorem simulatedRow_vaultId (v : XlmVault.Vault Address) :
    (simulatedRow s owner v).vaultId = idText v.vaultId := rfl

variable (s owner) in
/-- Each vault of the owner has one simulated row. -/
theorem simulated_once (hAllocated : Allocated storage) :
    (((storage.portfolio owner).map (simulatedRow s owner)).map (·.vaultId)).Nodup := by
  have hIds : ((storage.portfolio owner).map (simulatedRow s owner)).map (·.vaultId) =
      ((storage.portfolio owner).map (·.vaultId)).map idText := by
    rw [List.map_map, List.map_map]
    rfl
  rw [hIds]
  exact (portfolio_nodup hAllocated owner).map idText_injective

/-- The merge adds nothing to a complete simulated list. -/
theorem merged_perm (hAllocated : Allocated storage) (hSimulates : s.simulates = true)
    (hMerge : Overlays s.mergeVaults)
    (hCache : Owns storage owner ((s.cachedVaults (s.key.encode owner)).getD [])) :
    (mergedRows s storage owner).Perm ((storage.portfolio owner).map (simulatedRow s owner)) := by
  have hMerged : mergedRows s storage owner =
      s.mergeVaults ((s.cachedVaults (s.key.encode owner)).getD [])
        ((storage.portfolio owner).map (simulatedRow s owner)) := by
    unfold mergedRows liveVaults
    rw [simulateList_eq hAllocated hSimulates]
  have hOnce := simulated_once s owner hAllocated
  rw [hMerged, List.perm_ext_iff_of_nodup (hMerge.once _ _ hCache.once hOnce).of_map hOnce.of_map]
  intro row
  constructor
  · intro hRow
    rcases hMerge.origin _ _ row hRow with hLive | ⟨hCached, hNew⟩
    · exact hLive
    · -- A cached row is of an owned vault, which the simulated rows show.
      obtain ⟨id, hid, hText⟩ := hCache.owned row hCached
      obtain ⟨v, hVault, hOwner⟩ := (hAllocated.indexed owner id).mp hid
      have hKey := hAllocated.keyed id v hVault
      have hMem : v ∈ storage.portfolio owner := (mem_portfolio hAllocated).mpr ⟨hKey ▸ hVault, hOwner⟩
      refine absurd ?_ (hNew _ (List.mem_map_of_mem hMem))
      rw [simulatedRow_vaultId, hKey, hText]
  · exact hMerge.live _ _ row

/-- A simulated row has both its times, so that the list neither repairs nor
drops it. -/
theorem simulatedRow_dated {now : UInt64} {v : XlmVault.Vault Address} (hForm : v.WellFormed now)
    (hCreated : 0 < v.createdTimestamp) : (simulatedRow s owner v).Dated := by
  have hAfter := UInt64.lt_iff_toNat_lt.mp hForm.created_before_unlock
  have hPositive := UInt64.lt_iff_toNat_lt.mp hCreated
  refine ⟨?_, ?_, ?_⟩
  · show statusFor v s.nowSec ≠ .archived
    unfold statusFor
    split_ifs <;> simp
  · show (0 : Int) < v.unlockTimestamp.toNat
    omega
  · show (0 : Int) < v.createdTimestamp.toNat
    simpa using hPositive

/-- Dated live rows are listed as they are. -/
theorem keptRows_dated (h : ∀ v ∈ mergedRows s storage owner, v.Dated) :
    keptRows s storage owner = mergedRows s storage owner := by
  have hSame : (mergedRows s storage owner).map (sanitise s.nowSec (listedMetas s owner)) =
      mergedRows s storage owner :=
    (List.map_congr_left fun v hv => sanitise_dated (h v hv) _ _).trans (List.map_id _)
  unfold keptRows
  rw [hSame]
  exact List.filter_eq_self.mpr fun v hv => anchored_dated (h v hv) _

/-- The backend rows of ids that the owner does not have. -/
def foreignMetas (s : Session Address) (storage : Storage Address) (owner : Address) :
    List RemoteMeta :=
  (listedMetas s owner).filter fun r => r.vaultId ∉ (storage.listOwned owner).map idText

/-- The portfolio of the owner, and the rows that only the backend has. -/
def simulatedRows (s : Session Address) (storage : Storage Address) (owner : Address) : List Vault :=
  (storage.portfolio owner).map (simulatedRow s owner) ++
    (foreignMetas s storage owner).map fun r => (overlayRow (s.key.encode owner) s.nowSec r).row

/-- The repair leaves the simulated rows alone, and the overlay adds the rows
that only the backend has. -/
theorem rows_perm (hAllocated : Allocated storage) (hMerged : (mergedRows s storage owner).Perm
      ((storage.portfolio owner).map (simulatedRow s owner)))
    (hDated : ∀ v ∈ storage.portfolio owner, (simulatedRow s owner v).Dated) :
    (listVaults s storage owner).rows.Perm (simulatedRows s storage owner) := by
  have hRows : ∀ v ∈ mergedRows s storage owner, v.Dated := by
    intro row hRow
    obtain ⟨v, hv, rfl⟩ := List.mem_map.mp (hMerged.mem_iff.mp hRow)
    exact hDated v hv
  have hKept := keptRows_dated hRows
  have hIds : ((keptRows s storage owner).map (·.vaultId)).Perm
      ((storage.listOwned owner).map idText) := by
    rw [hKept, ← portfolio_ids hAllocated, List.map_map]
    have hPerm := hMerged.map (·.vaultId)
    rw [List.map_map] at hPerm
    exact hPerm
  have hOverlaid : overlaidMetas s storage owner = foreignMetas s storage owner := by
    unfold overlaidMetas foreignMetas
    simp only [hIds.mem_iff]
  refine (listVaults_perm s storage owner).trans ?_
  rw [hOverlaid, hKept]
  exact List.Perm.append_right _ hMerged

omit [Arithmetic] in
/-- What only the backend has is never shown as in use. -/
theorem rowsOf_overlay {status : Status} (hUse : status = .locked ∨ status = .unlocked)
    (rs : List RemoteMeta) (ownerText : String) (nowSec : Int) :
    rowsOf status (rs.map fun r => (overlayRow ownerText nowSec r).row) = [] := by
  unfold rowsOf
  rw [List.filter_eq_nil_iff]
  intro row hRow hStatus
  obtain ⟨r, _, rfl⟩ := List.mem_map.mp hRow
  have hSame := of_decide_eq_true hStatus
  rcases overlayRow_status ownerText nowSec r with hDone | hDone
  · rw [hDone] at hSame
    rcases hUse with rfl | rfl <;> cases hSame
  · rw [hDone] at hSame
    rcases hUse with rfl | rfl <;> cases hSame

/-- The vaults of an owner that are shown with a status. -/
def shownAs (status : Status) (nowSec : Int) (portfolio : List (XlmVault.Vault Address)) :
    List (XlmVault.Vault Address) :=
  portfolio.filter fun v => statusFor v nowSec = status

/-- The simulated rows of one status are those of the vaults that are in that
status now. -/
theorem rowsOf_simulated (status : Status) (portfolio : List (XlmVault.Vault Address)) :
    rowsOf status (portfolio.map (simulatedRow s owner)) =
      (shownAs status s.nowSec portfolio).map (simulatedRow s owner) := by
  unfold rowsOf shownAs
  rw [List.filter_map]
  rfl

/-- The rows in use are those of the owner's vaults in use. -/
theorem rowsOf_listed {status : Status} (hUse : status = .locked ∨ status = .unlocked)
    (hRows : (listVaults s storage owner).rows.Perm (simulatedRows s storage owner)) :
    (rowsOf status (listVaults s storage owner).rows).Perm
      ((shownAs status s.nowSec (storage.portfolio owner)).map (simulatedRow s owner)) := by
  have hSplit := hRows.filter fun v => v.status = status
  change (rowsOf status _).Perm (rowsOf status (_ ++ _)) at hSplit
  rw [rowsOf_append, rowsOf_overlay hUse, List.append_nil, rowsOf_simulated] at hSplit
  exact hSplit

/-- The money in some vaults. -/
def stored (vaults : List (XlmVault.Vault Address)) : Int := (vaults.map fun v => v.balance.val).sum

/-- The balances that a total adds up, in the order of display, are those of the
owner's vaults in some order. -/
theorem balances_listed {status : Status} (hUse : status = .locked ∨ status = .unlocked)
    (hRows : (listVaults s storage owner).rows.Perm (simulatedRows s storage owner)) :
    ∃ vaults : List (XlmVault.Vault Address),
      vaults.Perm (shownAs status s.nowSec (storage.portfolio owner)) ∧
        balances status (listVaults s storage owner).rows =
          vaults.map fun v => stroopsToXlm v.balance.val := by
  obtain ⟨vaults, hPerm, hEq⟩ := exists_map_of_perm (rowsOf_listed hUse hRows)
  refine ⟨vaults, hPerm, ?_⟩
  unfold balances
  rw [hEq, List.map_map]
  rfl

/-- So the list has as many rows in use as the contract has vaults in use for
the owner. -/
theorem count_listed {status : Status} (hUse : status = .locked ∨ status = .unlocked)
    (hRows : (listVaults s storage owner).rows.Perm (simulatedRows s storage owner)) :
    (rowsOf status (listVaults s storage owner).rows).length =
      (shownAs status s.nowSec (storage.portfolio owner)).length := by
  rw [(rowsOf_listed hUse hRows).length_eq, List.length_map]

omit [Arithmetic] in
/-- Every row that only the backend has is shown as withdrawn or archived, and
counted as completed. -/
theorem count_overlay (rs : List RemoteMeta) (ownerText : String) (nowSec : Int) :
    (rowsOf .withdrawn (rs.map fun r => (overlayRow ownerText nowSec r).row)).length +
      (rowsOf .archived (rs.map fun r => (overlayRow ownerText nowSec r).row)).length =
        rs.length := by
  induction rs with
  | nil => rfl
  | cons r rs ih =>
      rw [List.map_cons, List.length_cons]
      rcases overlayRow_status ownerText nowSec r with hDone | hDone
      · simp only [rowsOf, List.filter_cons, hDone] at ih ⊢
        simp
        omega
      · simp only [rowsOf, List.filter_cons, hDone] at ih ⊢
        simp
        omega

omit [Arithmetic] in
theorem statusFor_ne_archived (v : XlmVault.Vault Address) (nowSec : Int) :
    statusFor v nowSec ≠ .archived := by
  unfold statusFor
  split_ifs <;> simp

/-- Beside the vaults that are withdrawn, the rows of the backend are counted as
completed, whatever they say. -/
theorem completed_listed
    (hRows : (listVaults s storage owner).rows.Perm (simulatedRows s storage owner)) :
    (rowsOf .withdrawn (listVaults s storage owner).rows).length +
      (rowsOf .archived (listVaults s storage owner).rows).length =
        (shownAs .withdrawn s.nowSec (storage.portfolio owner)).length +
          (foreignMetas s storage owner).length := by
  have hArchived : shownAs .archived s.nowSec (storage.portfolio owner) = [] := by
    unfold shownAs
    rw [List.filter_eq_nil_iff]
    intro v _ hStatus
    exact statusFor_ne_archived v s.nowSec (of_decide_eq_true hStatus)
  have hOverlay := count_overlay (foreignMetas s storage owner) (s.key.encode owner) s.nowSec
  rw [(rowsOf_perm hRows).length_eq, (rowsOf_perm hRows).length_eq]
  unfold simulatedRows
  rw [rowsOf_append, rowsOf_append, rowsOf_simulated, rowsOf_simulated, hArchived, List.map_nil,
    List.nil_append, List.length_append, List.length_map]
  omega

end Simulated

section Double

attribute [local instance] Arithmetic.double

/-- What is added up over vaults in any order is converted back to the stroops
in them. -/
theorem xlmToStroops_stored {first vaults : List (XlmVault.Vault Address)}
    (hPerm : first.Perm vaults) (hForm : ∀ v ∈ vaults, 0 ≤ v.balance.val)
    (hFew : (vaults.length + 3) * stored vaults < 2 ^ 51) :
    xlmToStroops (Arithmetic.sumFrom 0 (first.map fun v => stroopsToXlm v.balance.val)) =
      stored vaults := by
  have hSum : (first.map fun v => v.balance.val).sum = stored vaults := (hPerm.map _).sum_eq
  have hAmounts : first.map (fun v => stroopsToXlm v.balance.val) =
      (first.map fun v => v.balance.val).map stroopsToXlm := by
    rw [List.map_map]
    rfl
  rw [hAmounts, xlmToStroops_amounts, hSum]
  · intro n hn
    obtain ⟨v, hv, rfl⟩ := List.mem_map.mp hn
    exact hForm v (hPerm.mem_iff.mp hv)
  · rw [hSum, List.length_map, hPerm.length_eq]
    exact hFew

end Double

end SorobanClient
