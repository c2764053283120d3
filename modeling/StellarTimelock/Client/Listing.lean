import StellarTimelock.Client.AutoHeal

/-! The list as a whole: no id is lost or shown twice, the rows stand in display
order, and a row in use without an unlock time comes from one kind of backend
row only. -/
namespace SorobanClient

open XlmVault FloatingPoint

variable {Address : Type}

/-- The times of a live row that its repair looks at are both set, and the row
is not archived. -/
structure Vault.Dated (v : Vault) : Prop where
  status : v.status ≠ .archived
  unlock : 0 < v.unlockTimestamp
  created : 0 < v.createdTimestamp

/-- A row in use that does not say when it unlocks. -/
structure Vault.Undated (v : Vault) : Prop where
  status : v.status = .locked ∨ v.status = .unlocked
  unlock : v.unlockTimestamp ≤ 0

/-- A live row is repaired from a backend row that has a balance for it, no
final status, and no unlock time that could be shown. -/
structure RescuedUndated (metas : List RemoteMeta) (v : Vault) : Prop where
  status : v.status ≠ .archived
  unset : v.unlockTimestamp ≤ 0 ∨ v.createdTimestamp ≤ 0
  found : ∃ r, metaById metas v.vaultId = some r ∧ 0 < r.balanceXlm.getD 0 ∧
    r.onChainStatus ≠ some "withdrawn" ∧ r.onChainStatus ≠ some "archived" ∧
      r.unlockTimestamp.getD v.unlockTimestamp ≤ 0

/-- A row with both its times is left as it is. -/
theorem sanitise_dated {v : Vault} (h : v.Dated) (nowSec : Int) (metas : List RemoteMeta) :
    sanitise nowSec metas v = v := by
  have hUnlock := h.unlock
  have hCreated := h.created
  unfold sanitise
  rw [if_neg]
  rintro ⟨_, hUnset⟩
  omega

/-- A row with both its times needs no anchor in the backend. -/
theorem anchored_dated {v : Vault} (h : v.Dated) (metas : List RemoteMeta) :
    anchored metas v = true := by
  simp [anchored, h.status]

theorem Vault.Undated.ne_archived {v : Vault} (h : v.Undated) : v.status ≠ .archived := by
  intro hArchived
  have hStatus := h.status
  rw [hArchived] at hStatus
  rcases hStatus with hStatus | hStatus <;> cases hStatus

theorem Vault.Undated.ne_withdrawn {v : Vault} (h : v.Undated) : v.status ≠ .withdrawn := by
  intro hDone
  have hStatus := h.status
  rw [hDone] at hStatus
  rcases hStatus with hStatus | hStatus <;> cases hStatus

/-- A row that is not set, and that no snapshot rescues, becomes archived. -/
theorem sanitise_archived {nowSec : Int} {metas : List RemoteMeta} {v : Vault}
    (hZero : v.status ≠ .archived ∧ (v.unlockTimestamp ≤ 0 ∨ v.createdTimestamp ≤ 0))
    (h : ∀ r, metaById metas v.vaultId = some r →
      ¬ (0 < r.unlockTimestamp.getD 0 ∨ 0 < r.balanceXlm.getD 0)) :
    (sanitise nowSec metas v).status = .archived := by
  have hNone : (metaById metas v.vaultId).filter
      (fun r => 0 < r.unlockTimestamp.getD 0 ∨ 0 < r.balanceXlm.getD 0) = none := by
    rw [Option.filter_eq_none_iff]
    intro r hFound hRescue
    exact h r hFound (of_decide_eq_true hRescue)
  unfold sanitise
  rw [if_pos hZero]
  simp only [hNone]

/-- What a row that is rescued takes from its backend row. -/
theorem sanitise_rescued (nowSec : Int) {metas : List RemoteMeta} {v : Vault} {r : RemoteMeta}
    (hZero : v.status ≠ .archived ∧ (v.unlockTimestamp ≤ 0 ∨ v.createdTimestamp ≤ 0))
    (hFound : metaById metas v.vaultId = some r)
    (hRescue : 0 < r.unlockTimestamp.getD 0 ∨ 0 < r.balanceXlm.getD 0) :
    (sanitise nowSec metas v).unlockTimestamp = r.unlockTimestamp.getD v.unlockTimestamp ∧
    (sanitise nowSec metas v).status =
      if r.onChainStatus = some "withdrawn" then .withdrawn
      else if r.onChainStatus = some "archived" then .archived
      else if r.unlockTimestamp.getD 0 ≤ nowSec then .unlocked else .locked := by
  unfold sanitise
  rw [if_pos hZero, hFound]
  simp only [Option.filter_some, hRescue, decide_true, if_true, and_self]

/-- The repair leaves a row in use undated exactly when it takes it from such a
backend row. -/
theorem sanitise_undated_iff (nowSec : Int) (metas : List RemoteMeta) (v : Vault) :
    (sanitise nowSec metas v).Undated ↔ RescuedUndated metas v := by
  constructor
  · intro hCard
    by_cases hZero : v.status ≠ .archived ∧ (v.unlockTimestamp ≤ 0 ∨ v.createdTimestamp ≤ 0)
    · have hFound : ∃ r, metaById metas v.vaultId = some r ∧
          (0 < r.unlockTimestamp.getD 0 ∨ 0 < r.balanceXlm.getD 0) := by
        by_contra hNone
        refine hCard.ne_archived (sanitise_archived hZero ?_)
        intro r hFound hRescue
        exact hNone ⟨r, hFound, hRescue⟩
      obtain ⟨r, hFound, hRescue⟩ := hFound
      obtain ⟨hTime, hStatus⟩ := sanitise_rescued nowSec hZero hFound hRescue
      have hUnlock := hCard.unlock
      rw [hTime] at hUnlock
      refine ⟨hZero.1, hZero.2, r, hFound, ?_, ?_, ?_, hUnlock⟩
      · rcases hRescue with hSet | hBalance
        · -- A set unlock time would have been shown.
          cases hSome : r.unlockTimestamp with
          | none =>
              rw [hSome, Option.getD_none] at hSet
              omega
          | some t =>
              rw [hSome, Option.getD_some] at hSet hUnlock
              omega
        · exact hBalance
      · intro hDone
        rw [if_pos hDone] at hStatus
        exact hCard.ne_withdrawn hStatus
      · intro hKept
        rw [hKept, if_neg (by decide), if_pos rfl] at hStatus
        exact hCard.ne_archived hStatus
    · have hSame : sanitise nowSec metas v = v := if_neg hZero
      rw [hSame] at hCard
      exact absurd ⟨hCard.ne_archived, Or.inl hCard.unlock⟩ hZero
  · rintro ⟨hStatus, hUnset, r, hFound, hBalance, hLive, hKept, hUnlock⟩
    obtain ⟨hTime, hRow⟩ :=
      sanitise_rescued nowSec ⟨hStatus, hUnset⟩ hFound (Or.inr hBalance)
    rw [if_neg hLive, if_neg hKept] at hRow
    constructor
    · rw [hRow]
      split_ifs
      · exact Or.inr rfl
      · exact Or.inl rfl
    · rw [hTime]
      exact hUnlock

/-- A row of the overlay is withdrawn or archived: one that the backend calls
live is coerced. -/
theorem overlayRow_status (owner : String) (nowSec : Int) (r : RemoteMeta) :
    (overlayRow owner nowSec r).row.status = .withdrawn ∨
      (overlayRow owner nowSec r).row.status = .archived := by
  unfold overlayRow
  by_cases hLive : r.onChainStatus = some "live"
  · simp [hLive]
  · by_cases hDone : r.onChainStatus = some "withdrawn"
    · simp [hDone]
    · simp [hLive, hDone]

/-- The row that the overlay makes of a backend row is never undated. -/
theorem overlayRow_not_undated (owner : String) (nowSec : Int) (r : RemoteMeta) :
    ¬ (overlayRow owner nowSec r).row.Undated := by
  intro hCard
  rcases overlayRow_status owner nowSec r with hRow | hRow
  · exact hCard.ne_withdrawn hRow
  · exact hCard.ne_archived hRow

/-- The order of the list: archived rows last, newer rows first in each
group. -/
theorem displayedBefore_iff (a b : Vault) : displayedBefore a b ↔
    (a.status = .archived → b.status = .archived) ∧
      ((a.status = .archived ↔ b.status = .archived) →
        b.createdTimestamp ≤ a.createdTimestamp) := by
  unfold displayedBefore
  by_cases ha : a.status = .archived
  · by_cases hb : b.status = .archived
    · simp [ha, hb]
    · simp [ha, hb]
  · by_cases hb : b.status = .archived
    · simp [ha, hb]
    · simp [ha, hb]

instance : Std.Total displayedBefore where
  total a b := by
    rw [displayedBefore_iff, displayedBefore_iff]
    by_cases ha : a.status = .archived
    · by_cases hb : b.status = .archived
      · simpa [ha, hb] using Int.le_total _ _
      · simp [ha, hb]
    · by_cases hb : b.status = .archived
      · simp [ha, hb]
      · simpa [ha, hb] using Int.le_total _ _

instance : IsTrans Vault displayedBefore where
  trans a b c := by
    intro hab hbc
    rw [displayedBefore_iff] at hab hbc ⊢
    refine ⟨hbc.1 ∘ hab.1, fun hSame => ?_⟩
    have hb : a.status = .archived ↔ b.status = .archived :=
      ⟨hab.1, fun hb => hSame.mpr (hbc.1 hb)⟩
    exact le_trans (hbc.2 (hb.symm.trans hSame)) (hab.2 hb)

section Rows

variable (s : Session Address) (storage : Storage Address) (owner : Address)

/-- The backend rows a call of `listVaults` works with. -/
def listedMetas : List RemoteMeta := (s.remoteMetas (s.key.encode owner)).getD []

/-- The live rows of a call before their repair: those of the merge, or of the
cache when there is nothing to merge it with. -/
def mergedRows [Arithmetic] : List Vault := (liveVaults s storage owner (listedMetas s owner)).2

/-- The live rows of a call after their repair. -/
def keptRows [Arithmetic] : List Vault :=
  ((mergedRows s storage owner).map (sanitise s.nowSec (listedMetas s owner))).filter
    (anchored (listedMetas s owner))

/-- The backend rows for which the overlay has a row. -/
def overlaidMetas [Arithmetic] : List RemoteMeta :=
  (listedMetas s owner).filter fun r => r.vaultId ∉ (keptRows s storage owner).map (·.vaultId)

/-- The rows listed are, up to their order, the merged rows that are kept and
the rows overlaid for the backend rows that have none. -/
theorem listVaults_perm [Arithmetic] : (listVaults s storage owner).rows.Perm
    (keptRows s storage owner ++
      (overlaidMetas s storage owner).map fun r =>
        (overlayRow (s.key.encode owner) s.nowSec r).row) := by
  unfold listVaults
  refine (List.perm_insertionSort _ _).trans ?_
  unfold buildArchivedOverlayFromMetas
  rw [List.map_map]
  exact List.Perm.refl _

/-- A listed row is a repaired live row that is anchored, or a row of the
overlay. -/
theorem mem_rows_iff [Arithmetic] (row : Vault) : row ∈ (listVaults s storage owner).rows ↔
    (∃ v ∈ mergedRows s storage owner, sanitise s.nowSec (listedMetas s owner) v = row ∧
      anchored (listedMetas s owner) row = true) ∨
    ∃ r ∈ overlaidMetas s storage owner,
      (overlayRow (s.key.encode owner) s.nowSec r).row = row := by
  rw [(listVaults_perm s storage owner).mem_iff, List.mem_append, keptRows, List.mem_filter,
    List.mem_map, List.mem_map]
  apply or_congr_left
  constructor
  · rintro ⟨⟨v, hv, hRow⟩, hAnchored⟩
    exact ⟨v, hv, hRow, hAnchored⟩
  · rintro ⟨v, hv, hRow, hAnchored⟩
    exact ⟨⟨v, hv, hRow⟩, hAnchored⟩

/-- No listed row is in use and undated if and only if no merged live row is
rescued from a backend row that has a balance and no unlock time. -/
theorem no_undated_row_iff [Arithmetic] :
    (∀ row ∈ (listVaults s storage owner).rows,
      ¬ ((row.status = .locked ∨ row.status = .unlocked) ∧ row.unlockTimestamp ≤ 0)) ↔
    ∀ v ∈ mergedRows s storage owner, ¬ RescuedUndated (listedMetas s owner) v := by
  constructor
  · intro hRows v hv hRescued
    have hCard := (sanitise_undated_iff s.nowSec _ v).mpr hRescued
    refine hRows _ ((mem_rows_iff s storage owner _).mpr (Or.inl ⟨v, hv, rfl, ?_⟩))
      ⟨hCard.status, hCard.unlock⟩
    simp [anchored, hCard.ne_archived]
  · rintro hRescues row hRow ⟨hStatus, hUnlock⟩
    rcases (mem_rows_iff s storage owner row).mp hRow with ⟨v, hv, rfl, -⟩ | ⟨r, -, rfl⟩
    · exact hRescues v hv ((sanitise_undated_iff s.nowSec _ v).mp ⟨hStatus, hUnlock⟩)
    · exact overlayRow_not_undated _ _ r ⟨hStatus, hUnlock⟩

variable {s storage owner}

/-- Keeping rows only drops some of them, so the ids of the kept rows have no
more repetitions than those of the merged ones. -/
theorem keptRows_sublist [Arithmetic] : ((keptRows s storage owner).map (·.vaultId)).Sublist
    ((mergedRows s storage owner).map (·.vaultId)) := by
  have hIds : ((mergedRows s storage owner).map (sanitise s.nowSec (listedMetas s owner))).map
      (·.vaultId) = (mergedRows s storage owner).map (·.vaultId) := by
    rw [List.map_map]
    apply List.map_congr_left
    intro v _
    exact sanitise_vaultId _ _ v
  rw [← hIds]
  exact List.filter_sublist.map _

/-- No id is listed twice. -/
theorem listed_nodup [Arithmetic] (h : ((mergedRows s storage owner).map (·.vaultId)).Nodup)
    (hMetas : ((listedMetas s owner).map (·.vaultId)).Nodup) :
    ((listVaults s storage owner).rows.map (·.vaultId)).Nodup := by
  rw [((listVaults_perm s storage owner).map _).nodup_iff, List.map_append, List.nodup_append]
  refine ⟨h.sublist keptRows_sublist, ?_, ?_⟩
  · rw [List.map_map]
    exact hMetas.sublist (List.filter_sublist.map _)
  · intro a hKept b hOverlaid hSame
    rw [List.map_map] at hOverlaid
    obtain ⟨r, hr, rfl⟩ := List.mem_map.mp hOverlaid
    have hUnseen := of_decide_eq_true (List.mem_filter.mp hr).2
    rw [hSame] at hKept
    exact hUnseen hKept

/-- A merged row with both its times is always listed. -/
theorem dated_listed [Arithmetic] {v : Vault} (hv : v ∈ mergedRows s storage owner) (h : v.Dated) :
    v ∈ (listVaults s storage owner).rows := by
  rw [mem_rows_iff]
  exact Or.inl ⟨v, hv, sanitise_dated h _ _, anchored_dated h _⟩

/-- Every backend row that passes the filter is listed, through a merged row or
through an overlaid one. -/
theorem meta_listed [Arithmetic] {r : RemoteMeta} (hr : r ∈ listedMetas s owner) :
    HasRow (listVaults s storage owner).rows r.vaultId := by
  by_cases hKept : r.vaultId ∈ (keptRows s storage owner).map (·.vaultId)
  · obtain ⟨v, hv, hId⟩ := List.mem_map.mp hKept
    exact ⟨v, (listVaults_perm s storage owner).mem_iff.mpr (List.mem_append_left _ hv), hId⟩
  · refine ⟨_, (mem_rows_iff s storage owner _).mpr (Or.inr ⟨r, ?_, rfl⟩), rfl⟩
    exact List.mem_filter.mpr ⟨hr, decide_eq_true hKept⟩

/-- An id is listed exactly if a backend row has it or a dated live row. -/
theorem hasRow_listed_iff [Arithmetic] (id : String) : HasRow (listVaults s storage owner).rows id ↔
    (∃ r ∈ listedMetas s owner, r.vaultId = id) ∨
      ∃ v ∈ mergedRows s storage owner, v.vaultId = id ∧ v.Dated := by
  constructor
  · rintro ⟨row, hRow, rfl⟩
    rcases (mem_rows_iff s storage owner row).mp hRow with ⟨v, hv, rfl, hAnchored⟩ | ⟨r, hr, rfl⟩
    · cases hFound : metaById (listedMetas s owner) v.vaultId with
      | some r =>
          refine Or.inl ⟨r, List.mem_reverse.mp (List.mem_of_find?_eq_some hFound), ?_⟩
          rw [sanitise_vaultId]
          simpa using List.find?_some hFound
      | none =>
          -- Nothing anchors an archived row, so this one has not been repaired.
          have hLive : (sanitise s.nowSec (listedMetas s owner) v).status ≠ .archived := by
            intro hArchived
            simp [anchored, hArchived, sanitise_vaultId, hFound] at hAnchored
          have hSet : ¬ (v.status ≠ .archived ∧
              (v.unlockTimestamp ≤ 0 ∨ v.createdTimestamp ≤ 0)) := by
            intro hZero
            refine hLive (sanitise_archived hZero fun r hSome => ?_)
            rw [hFound] at hSome
            cases hSome
          rw [sanitise, if_neg hSet] at hLive
          have hTimes := (not_and.mp hSet) hLive
          refine Or.inr ⟨v, hv, (sanitise_vaultId _ _ v).symm, hLive, ?_, ?_⟩ <;> omega
    · exact Or.inl ⟨r, (List.mem_filter.mp hr).1, rfl⟩
  · rintro (⟨r, hr, rfl⟩ | ⟨v, hv, rfl, hDated⟩)
    · exact meta_listed hr
    · exact ⟨v, dated_listed hv hDated, rfl⟩

variable (s storage owner)

/-- For live rows and backend rows that have distinct ids: no id is listed
twice, the listed ids are those of the backend rows and of the dated live rows,
a dated live row is listed as it is, and archived rows come last, newer rows
first in each group. -/
theorem listVaults_merges [Arithmetic] (h : ((mergedRows s storage owner).map (·.vaultId)).Nodup)
    (hMetas : ((listedMetas s owner).map (·.vaultId)).Nodup) :
    let rows := (listVaults s storage owner).rows
    (rows.map (·.vaultId)).Nodup ∧
    (∀ id, HasRow rows id ↔ (∃ r ∈ listedMetas s owner, r.vaultId = id) ∨
      ∃ v ∈ mergedRows s storage owner, v.vaultId = id ∧ v.status ≠ .archived ∧
        0 < v.unlockTimestamp ∧ 0 < v.createdTimestamp) ∧
    (∀ v ∈ mergedRows s storage owner, v.status ≠ .archived → 0 < v.unlockTimestamp →
      0 < v.createdTimestamp → v ∈ rows) ∧
    rows.Pairwise fun a b => (a.status = .archived → b.status = .archived) ∧
      ((a.status = .archived ↔ b.status = .archived) →
        b.createdTimestamp ≤ a.createdTimestamp) := by
  intro rows
  refine ⟨listed_nodup h hMetas, ?_, ?_, ?_⟩
  · intro id
    rw [hasRow_listed_iff]
    apply or_congr_right
    constructor
    · rintro ⟨v, hv, hId, hDated⟩
      exact ⟨v, hv, hId, hDated.status, hDated.unlock, hDated.created⟩
    · rintro ⟨v, hv, hId, hStatus, hUnlock, hCreated⟩
      exact ⟨v, hv, hId, hStatus, hUnlock, hCreated⟩
  · intro v hv hStatus hUnlock hCreated
    exact dated_listed hv ⟨hStatus, hUnlock, hCreated⟩
  · exact (List.pairwise_insertionSort displayedBefore _).imp (displayedBefore_iff _ _).mp

end Rows

def cachedRow (id : String) (unlock created : Int) : Vault where
  vaultId := id
  ownerPublicKey := "7"
  name := "Rent"
  description := ""
  template := "custom"
  balance := 0
  targetAmount := none
  unlockTimestamp := unlock
  createdTimestamp := created
  status := .locked

/-- A snapshot that has the balance of vault 1 only. -/
def balanceMeta : RemoteMeta where
  vaultId := "1"
  description := ""
  template := "custom"
  balanceXlm := some 5
  onChainStatus := some "live"
  createdAt := some (some 1766000000000)

/-- A row of a vault the device has never seen. -/
def archivedMeta : RemoteMeta where
  vaultId := "3"
  description := ""
  template := "custom"

def staleDevice : Session Nat where
  key := numbered
  simulates := false
  events := some []
  cachedVaults _ := some [cachedRow "0" 1800000000 1700000000, cachedRow "1" 0 0, cachedRow "2" 0 0]
  remoteMetas _ := some [balanceMeta, archivedMeta]
  loadMeta _ _ := emptyMeta
  mergeVaults := mergeById
  scU64 _ := none
  nowSec := 1767240000

section Sample

attribute [local instance] Arithmetic.double

/-- The device shows vault 1 as unlocked, with five XLM, since 1970. -/
theorem staleDevice_shows_1970 :
    let rows := (listVaults staleDevice sampleGenesis.world.storage 7).rows
    rows.map (fun v => (v.vaultId, v.status, v.balance, v.unlockTimestamp)) =
      [("1", .unlocked, 5, 0), ("0", .locked, 0, 1800000000), ("3", .archived, 0, 0)] ∧
    ¬ ∀ row ∈ rows,
      ¬ ((row.status = .locked ∨ row.status = .unlocked) ∧ row.unlockTimestamp ≤ 0) := by
  intro rows
  have hRows : rows.map (fun v => (v.vaultId, v.status, v.balance, v.unlockTimestamp)) =
      [("1", .unlocked, 5, 0), ("0", .locked, 0, 1800000000), ("3", .archived, 0, 0)] := by
    rfl
  refine ⟨hRows, ?_⟩
  intro hNone
  have hCard : ("1", Status.unlocked, (5 : Rat), (0 : Int)) ∈ rows.map
      fun v => (v.vaultId, v.status, v.balance, v.unlockTimestamp) := by
    rw [hRows]
    exact List.mem_cons_self
  obtain ⟨row, hRow, hFigures⟩ := List.mem_map.mp hCard
  simp only [Prod.mk.injEq] at hFigures
  obtain ⟨-, hStatus, -, hUnlock⟩ := hFigures
  exact hNone row hRow ⟨Or.inr hStatus, le_of_eq hUnlock⟩

/-- Its rows are in order all the same. -/
theorem listVaults_merges_sample :
    let rows := (listVaults staleDevice sampleGenesis.world.storage 7).rows
    (rows.map (·.vaultId)).Nodup ∧ HasRow rows "3" ∧ ¬ HasRow rows "2" := by
  have hMerged : (mergedRows staleDevice sampleGenesis.world.storage 7).map (·.vaultId) =
      ["0", "1", "2"] := by
    rfl
  have hMetas : (listedMetas staleDevice 7).map (·.vaultId) = ["1", "3"] := by
    rfl
  obtain ⟨hOnce, hIds, -, -⟩ := listVaults_merges staleDevice
    sampleGenesis.world.storage 7 (by rw [hMerged]; decide) (by rw [hMetas]; decide)
  exact ⟨hOnce, (hIds "3").mpr (by decide), fun h => absurd ((hIds "2").mp h) (by decide)⟩

end Sample

end SorobanClient
