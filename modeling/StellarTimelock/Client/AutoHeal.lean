import StellarTimelock.Client.VaultList
import StellarTimelock.Client.Events

/-! When the overlay may take a meta that is marked live for a stale one: only
if the rows it is compared with show every vault that still holds money. -/
namespace SorobanClient

open XlmVault Execution FloatingPoint

variable {Address : Type} {contract : Address}

/-- The row of a list with this id. -/
def HasRow (rows : List Vault) (id : String) : Prop := ∃ v ∈ rows, v.vaultId = id

/-- The ids for which the overlay calls `dismissVaultMeta`. -/
def dismissals (overlay : List Overlay) : List String :=
  (overlay.filter (·.dismissed)).map (·.source.vaultId)

/-- The vault is not dismissed, and no row made of a live meta of it says that
it is withdrawn and empty. -/
def Unharmed (overlay : List Overlay) (id : String) : Prop :=
  id ∉ dismissals overlay ∧ ∀ o ∈ overlay, o.source.onChainStatus = some "live" →
    o.row.vaultId = id → ¬ (o.row.status = .withdrawn ∧ o.row.balance = 0)

/-- An overlay harms exactly the ids that some live meta has and the live rows
do not. -/
theorem unharmed_iff (owner : String) (nowSec : Int) (remotes : List RemoteMeta)
    (liveIds : List String) (id : String) :
    Unharmed (buildArchivedOverlayFromMetas owner nowSec remotes liveIds) id ↔
      ∀ r ∈ remotes, r.vaultId = id → r.onChainStatus = some "live" → id ∈ liveIds := by
  unfold Unharmed buildArchivedOverlayFromMetas
  constructor
  · rintro ⟨hKept, _⟩ r hr rfl hLive
    by_contra hUnseen
    apply hKept
    refine List.mem_map.mpr ⟨overlayRow owner nowSec r, ?_, rfl⟩
    refine List.mem_filter.mpr ⟨List.mem_map_of_mem ?_, decide_eq_true hLive⟩
    exact List.mem_filter.mpr ⟨hr, decide_eq_true hUnseen⟩
  · intro hSeen
    have hNone (o : Overlay)
        (ho : o ∈ (remotes.filter fun r => r.vaultId ∉ liveIds).map (overlayRow owner nowSec))
        (hId : o.source.vaultId = id) : o.source.onChainStatus ≠ some "live" := by
      obtain ⟨r, hr, rfl⟩ := List.mem_map.mp ho
      obtain ⟨hMem, hUnseen⟩ := List.mem_filter.mp hr
      intro hLive
      have hUnlisted : r.vaultId ∉ liveIds := of_decide_eq_true hUnseen
      have hSame : r.vaultId = id := hId
      rw [hSame] at hUnlisted
      exact hUnlisted (hSeen r hMem hSame hLive)
    constructor
    · intro hMem
      obtain ⟨o, ho, hId⟩ := List.mem_map.mp hMem
      obtain ⟨hOverlay, hDismissed⟩ := List.mem_filter.mp ho
      obtain ⟨r, _, rfl⟩ := List.mem_map.mp hOverlay
      exact hNone _ hOverlay hId (of_decide_eq_true hDismissed)
    · intro o ho hLive hId
      obtain ⟨r, _, rfl⟩ := List.mem_map.mp ho
      exact absurd hLive (hNone _ ho hId)

@[simp] theorem sanitise_vaultId (nowSec : Int) (metas : List RemoteMeta) (v : Vault) :
    (sanitise nowSec metas v).vaultId = v.vaultId := by
  unfold sanitise
  split
  · simp only
    split <;> rfl
  · rfl

theorem metaById_isSome {metas : List RemoteMeta} {r : RemoteMeta} (h : r ∈ metas) :
    (metaById metas r.vaultId).isSome = true := by
  unfold metaById
  rw [List.find?_isSome]
  exact ⟨r, List.mem_reverse.mpr h, decide_eq_true rfl⟩

/-- A live row with a meta is listed whatever its repair makes of it. -/
theorem hasRow_kept_iff {metas : List RemoteMeta} {r : RemoteMeta} (h : r ∈ metas) (nowSec : Int)
    (rows : List Vault) :
    r.vaultId ∈ ((rows.map (sanitise nowSec metas)).filter (anchored metas)).map (·.vaultId) ↔
      HasRow rows r.vaultId := by
  constructor
  · intro hMem
    obtain ⟨v, hv, hId⟩ := List.mem_map.mp hMem
    obtain ⟨u, hu, rfl⟩ := List.mem_map.mp (List.mem_filter.mp hv).1
    exact ⟨u, hu, (sanitise_vaultId nowSec metas u).symm.trans hId⟩
  · rintro ⟨u, hu, hId⟩
    refine List.mem_map.mpr ⟨sanitise nowSec metas u, List.mem_filter.mpr
      ⟨List.mem_map_of_mem hu, ?_⟩, (sanitise_vaultId nowSec metas u).trans hId⟩
    have hAnchor := metaById_isSome h
    unfold anchored
    rw [sanitise_vaultId, hId]
    cases hFound : metaById metas r.vaultId with
    | none =>
        rw [hFound] at hAnchor
        cases hAnchor
    | some m => simp

/-- A list of reads that all succeed gives exactly their results. -/
theorem mapM_some_spec {α β : Type} {f : α → Option β} {xs : List α}
    (h : ∀ x ∈ xs, ∃ y, f x = some y) :
    ∃ ys, xs.mapM f = some ys ∧ ∀ y, y ∈ ys ↔ ∃ x ∈ xs, f x = some y := by
  induction xs with
  | nil => exact ⟨[], rfl, fun y => by simp⟩
  | cons x xs ih =>
      obtain ⟨y, hy⟩ := h x List.mem_cons_self
      obtain ⟨ys, hys, hMem⟩ := ih (fun a ha => h a (List.mem_cons_of_mem x ha))
      refine ⟨y :: ys, by simp [List.mapM_cons, hy, hys], fun z => ?_⟩
      rw [List.mem_cons, hMem, List.exists_mem_cons_iff, hy, Option.some.injEq]
      exact or_congr_left eq_comm

/-- The replay shows a vault of the owner if and only if one of its events is
this owner's creation of the vault. Deposits and withdrawals alone make no row.
-/
theorem hasRow_aggregate_iff [Arithmetic] {loadMeta : String → VaultMeta} {nowSec : Int}
    {events : List ParsedEvent} {owner id : String}
    {remoteMetasById : String → Option RemoteMeta} :
    HasRow (aggregateVaultsFromEvents loadMeta nowSec events owner remoteMetasById) id ↔
      ∃ e ∈ events, e.kind = .create ∧ e.ownerPublicKey = owner ∧ e.vaultId = id := by
  rw [← exists_replay_iff]
  constructor
  · rintro ⟨row, hRow, hId⟩
    obtain ⟨v, hv, rfl⟩ := mem_aggregate.mp hRow
    exact ⟨v, hv, hId⟩
  · rintro ⟨v, hv, hId⟩
    exact ⟨_, mem_aggregate.mpr ⟨v, hv, rfl⟩, hId⟩

/-- The delivered events contain the owner's `create` event of the vault. -/
def Delivered (s : Session Address) (owner id : String) : Prop :=
  ∃ events, s.events = some events ∧
    ∃ e ∈ events, e.kind = .create ∧ e.ownerPublicKey = owner ∧ e.vaultId = id

/-- The sources of a call of `listVaults` show the vault: the cache always
counts, `list_owned` when the simulated reads succeed, else the events. -/
def Covered (s : Session Address) (storage : Storage Address) (owner : Address) (id : String) :
    Prop :=
  HasRow ((s.cachedVaults (s.key.encode owner)).getD []) id ∨
    if s.simulates then ∃ k ∈ storage.listOwned owner, idText k = id
    else Delivered s (s.key.encode owner) id

/-- In a reachable state the simulated reads give a row for every owned id. -/
theorem simulateList_spec [Arithmetic] {s : Session Address} {storage : Storage Address}
    (hAllocated : Allocated storage) (owner : Address) (h : s.simulates = true) :
    ∃ rows, simulateList s storage owner = some rows ∧
      ∀ id, HasRow rows id ↔ ∃ k ∈ storage.listOwned owner, idText k = id := by
  have hReads : ∀ k ∈ storage.listOwned owner, ∃ row, ((storage.vault k).map fun v =>
      toVault s.key s.nowSec v (s.loadMeta (s.key.encode owner) (idText v.vaultId))) = some row := by
    intro k hk
    obtain ⟨v, hVault, _⟩ := (hAllocated.indexed owner k).mp hk
    rw [hVault]
    exact ⟨_, rfl⟩
  obtain ⟨rows, hRows, hMem⟩ := mapM_some_spec hReads
  refine ⟨rows, by rw [simulateList, if_pos h]; exact hRows, fun id => ?_⟩
  constructor
  · rintro ⟨row, hRow, rfl⟩
    obtain ⟨k, hk, hRead⟩ := (hMem row).mp hRow
    obtain ⟨v, hVault, rfl⟩ := Option.map_eq_some_iff.mp hRead
    exact ⟨k, hk, congrArg idText (hAllocated.keyed k v hVault).symm⟩
  · rintro ⟨k, hk, rfl⟩
    obtain ⟨v, hVault, _⟩ := (hAllocated.indexed owner k).mp hk
    refine ⟨_, (hMem _).mpr ⟨k, hk, by rw [hVault]; rfl⟩, ?_⟩
    exact congrArg idText (hAllocated.keyed k v hVault)

/-- The live rows show exactly what the sources of the call show. -/
theorem hasRow_liveVaults_iff [Arithmetic] {s : Session Address} {storage : Storage Address}
    (hAllocated : Allocated storage) (owner : Address) (metas : List RemoteMeta)
    (hMerge : ∀ cached live id,
      HasRow (s.mergeVaults cached live) id ↔ HasRow cached id ∨ HasRow live id) (id : String) :
    HasRow (liveVaults s storage owner metas).2 id ↔ Covered s storage owner id := by
  unfold liveVaults Covered
  cases hSimulates : s.simulates with
  | true =>
      obtain ⟨rows, hRows, hIds⟩ := simulateList_spec hAllocated owner hSimulates
      simp only [hRows, if_true]
      rw [hMerge, hIds]
  | false =>
      have hNone : simulateList s storage owner = none := by
        rw [simulateList, hSimulates]
        rfl
      simp only [hNone, Bool.false_eq_true, if_false]
      have hReplayed : HasRow ((s.events.map fun events =>
          aggregateVaultsFromEvents (s.loadMeta (s.key.encode owner)) s.nowSec events
            (s.key.encode owner) (metaById metas)).getD []) id ↔
          Delivered s (s.key.encode owner) id := by
        unfold Delivered
        cases s.events with
        | none => simp [HasRow]
        | some events =>
            rw [Option.map_some, Option.getD_some, hasRow_aggregate_iff]
            simp
      split_ifs with hEvents hCached
      · rw [hMerge, hReplayed]
      · rw [← hReplayed, not_not.mp hEvents]
        simp [HasRow]
      · rw [← hReplayed, not_not.mp hEvents, not_not.mp hCached]
        simp [HasRow]

/-- `getVault` gets past every source and asks the backend about this owner:
the vault cannot be read, its `create` event is not delivered to the owner of
its first event, and that owner's cache does not have it. -/
structure FallsThrough (s : Session Address) (storage : Storage Address) (id : String)
    (ownerHint : Option String) (owner : String) : Prop where
  unread : s.simulates = true → (s.scU64 id).bind storage.vault = none
  undelivered : ∀ e, firstEvent s id = some e → ¬ Delivered s e.ownerPublicKey id
  inferred : inferredOwner s id ownerHint = some owner
  uncached : ¬ HasRow ((s.cachedVaults owner).getD []) id

/-- The search by id finds nothing if and only if there is no row with the id.
-/
theorem find?_eq_none_iff_not_hasRow (rows : List Vault) (id : String) :
    rows.find? (fun v => v.vaultId = id) = none ↔ ¬ HasRow rows id := by
  rw [List.find?_eq_none]
  simp [HasRow]

/-- `getVaultFromEvents` finds nothing if and only if the vault has no event, or
the owner that its first event names has no creation of the vault among the
events delivered. -/
theorem fromEvents_eq_none_iff [Arithmetic] (s : Session Address) (id : String) :
    fromEvents s id = none ↔ ∀ e, firstEvent s id = some e → ¬ Delivered s e.ownerPublicKey id := by
  unfold fromEvents
  cases hFirst : firstEvent s id with
  | none => simp
  | some e =>
      have hEvents : ∃ events, s.events = some events := by
        cases hEvents : s.events with
        | none =>
            rw [firstEvent, hEvents] at hFirst
            cases hFirst
        | some events => exact ⟨events, rfl⟩
      obtain ⟨events, hEvents⟩ := hEvents
      rw [Option.bind_some, find?_eq_none_iff_not_hasRow, hasRow_aggregate_iff]
      simp [Delivered, hEvents]

/-- The backend is consulted exactly when every source has failed. -/
theorem getVault_overlay_eq [Arithmetic] (s : Session Address) (storage : Storage Address) (id : String)
    (ownerHint : Option String) (overlay : List Overlay)
    (h : (getVault s storage id ownerHint).overlay = overlay) :
    (∃ owner, FallsThrough s storage id ownerHint owner ∧ overlay =
      buildArchivedOverlayFromMetas owner s.nowSec ((s.remoteMetas owner).getD []) []) ∨
    (∀ owner, ¬ FallsThrough s storage id ownerHint owner) ∧ overlay = [] := by
  unfold getVault at h
  split at h
  · next v hRead =>
      refine Or.inr ⟨?_, h.symm⟩
      intro owner hFalls
      split_ifs at hRead with hSimulates
      · rw [hFalls.unread hSimulates] at hRead
        cases hRead
  · next hUnread =>
      have hUnreadable : s.simulates = true → (s.scU64 id).bind storage.vault = none := by
        intro hSimulates
        rw [if_pos hSimulates] at hUnread
        exact hUnread
      split at h
      · next row hRow =>
          refine Or.inr ⟨?_, h.symm⟩
          intro owner hFalls
          rw [(fromEvents_eq_none_iff s id).mpr hFalls.undelivered] at hRow
          cases hRow
      · next hUndelivered =>
          split at h
          · next hOwner =>
              refine Or.inr ⟨?_, h.symm⟩
              intro owner hFalls
              rw [hFalls.inferred] at hOwner
              cases hOwner
          · next owner hOwner =>
              split at h
              · next row hRow =>
                  refine Or.inr ⟨?_, h.symm⟩
                  intro other hFalls
                  cases hOwner.symm.trans hFalls.inferred
                  rw [(find?_eq_none_iff_not_hasRow _ _).mpr hFalls.uncached] at hRow
                  cases hRow
              · next hUncached =>
                  exact Or.inl ⟨owner, ⟨hUnreadable, (fromEvents_eq_none_iff s id).mp hUndelivered,
                    hOwner, (find?_eq_none_iff_not_hasRow _ _).mp hUncached⟩, h.symm⟩

/-- A device without cached rows has no row that could be harmed. -/
theorem unharmed_nil (id : String) : Unharmed [] id := by
  constructor
  · exact List.not_mem_nil
  · intro o ho
    cases ho

variable [DecidableEq Address]

/-- In every reachable state, `listVaults` harms no vault that still holds
money if and only if its sources show every such vault of which it is given a
live meta, and `getVault` harms none if and only if, when it falls through to
the backend, no live meta of the inferred owner names such a vault. -/
theorem auto_heal_sound_iff [Arithmetic] (g : Genesis contract) (as : List (Action contract)) (owner : Address)
    (s : Session Address) (id : String) (ownerHint : Option String)
    (hMerge : ∀ cached live id,
      HasRow (s.mergeVaults cached live) id ↔ HasRow cached id ∨ HasRow live id) :
    let storage := (final (step contract) g.world as).storage
    ((∀ k v, storage.vault k = some v → v.withdrawn = false →
        Unharmed (listVaults s storage owner).overlay (idText k)) ↔
      ∀ k v, storage.vault k = some v → v.withdrawn = false →
        ∀ r ∈ (s.remoteMetas (s.key.encode owner)).getD [], r.vaultId = idText k →
          r.onChainStatus = some "live" → Covered s storage owner (idText k)) ∧
    ((∀ k v, storage.vault k = some v → v.withdrawn = false →
        Unharmed (getVault s storage id ownerHint).overlay (idText k)) ↔
      ∀ k v, storage.vault k = some v → v.withdrawn = false →
        ∀ reader, FallsThrough s storage id ownerHint reader →
          ∀ r ∈ (s.remoteMetas reader).getD [], r.vaultId = idText k →
            r.onChainStatus ≠ some "live") := by
  intro storage
  have hAllocated : Allocated storage := Allocated.reachable g as
  constructor
  · apply forall_congr'
    intro k
    apply forall_congr'
    intro v
    apply forall_congr'
    intro hVault
    apply forall_congr'
    intro hLive
    unfold listVaults
    rw [unharmed_iff]
    apply forall₂_congr
    intro r hr
    apply forall_congr'
    intro hId
    apply forall_congr'
    intro _
    rw [← hId, hasRow_kept_iff hr, hasRow_liveVaults_iff hAllocated owner _ hMerge]
  · apply forall_congr'
    intro k
    apply forall_congr'
    intro v
    apply forall_congr'
    intro hVault
    apply forall_congr'
    intro hLive
    rcases getVault_overlay_eq s storage id ownerHint _ rfl with
      ⟨reader, hFalls, hOverlay⟩ | ⟨hStops, hOverlay⟩
    · rw [hOverlay, unharmed_iff]
      constructor
      · intro h other hOther r hr hId hMeta
        cases hFalls.inferred.symm.trans hOther.inferred
        exact absurd (h r hr hId hMeta) List.not_mem_nil
      · intro h r hr hId hMeta
        exact absurd hMeta (h reader hFalls r hr hId)
    · rw [hOverlay]
      constructor
      · intro _ reader hFalls
        exact absurd hFalls (hStops reader)
      · intro _
        exact unharmed_nil _

/-- A merge by id in which live rows win. -/
def mergeById (cached live : List Vault) : List Vault :=
  live ++ cached.filter fun v => v.vaultId ∉ live.map (·.vaultId)

/-- The merge shows the vaults of both sides and no others. -/
theorem hasRow_mergeById (cached live : List Vault) (id : String) :
    HasRow (mergeById cached live) id ↔ HasRow cached id ∨ HasRow live id := by
  constructor
  · rintro ⟨v, hv, hId⟩
    rcases List.mem_append.mp hv with hv | hv
    · exact Or.inr ⟨v, hv, hId⟩
    · exact Or.inl ⟨v, (List.mem_filter.mp hv).1, hId⟩
  · rintro (⟨v, hv, hId⟩ | ⟨v, hv, hId⟩)
    · by_cases hLive : v.vaultId ∈ live.map (·.vaultId)
      · obtain ⟨u, hu, hSame⟩ := List.mem_map.mp hLive
        exact ⟨u, List.mem_append_left _ hu, hSame.trans hId⟩
      · exact ⟨v, List.mem_append_right _ (List.mem_filter.mpr ⟨hv, decide_eq_true hLive⟩), hId⟩
    · exact ⟨v, List.mem_append_left _ hv, hId⟩

section Sample

attribute [local instance] Arithmetic.double

/-- A backend row that calls vault 0 live. -/
def liveMeta : RemoteMeta where
  vaultId := "0"
  description := ""
  template := "custom"
  balanceXlm := some (stroopsToXlm 520)
  unlockTimestamp := some 86400
  onChainStatus := some "live"

/-- A fresh device whose simulated reads fail and whose event window no longer
reaches the vault; the backend still calls it live. -/
def freshDevice : Session Nat where
  key := numbered
  simulates := false
  events := some []
  cachedVaults _ := none
  remoteMetas _ := some [liveMeta]
  loadMeta _ _ := emptyMeta
  mergeVaults := mergeById
  scU64 id := if id = "0" then some 0 else none
  nowSec := 1000

theorem auto_heal_sound_iff_sample :
    let storage := (final (step (0 : Nat)) sampleGenesis.world sampleRun).storage
    (∀ k v, storage.vault k = some v → v.withdrawn = false →
        Unharmed (listVaults freshDevice storage 7).overlay (idText k)) ↔
      ∀ k v, storage.vault k = some v → v.withdrawn = false →
        ∀ r ∈ (freshDevice.remoteMetas "7").getD [], r.vaultId = idText k →
          r.onChainStatus = some "live" → Covered freshDevice storage 7 (idText k) :=
  (auto_heal_sound_iff sampleGenesis sampleRun 7 freshDevice "0" none hasRow_mergeById).1

/-- On that device both methods dismiss a vault that holds 520. -/
theorem freshDevice_dismisses :
    let storage := (final (step (0 : Nat)) sampleGenesis.world sampleRun).storage
    ∃ v, storage.vault 0 = some v ∧ v.withdrawn = false ∧ v.balance.val = 520 ∧
      idText 0 ∈ dismissals (listVaults freshDevice storage 7).overlay ∧
      idText 0 ∈ dismissals (getVault freshDevice storage "0" (some "7")).overlay := by
  have hVault : (final (step (0 : Nat)) sampleGenesis.world sampleRun).storage.vault 0 =
      some ⟨0, 7, "Rent", ⟨520, by decide, by decide⟩, 86400, 0, false⟩ := by decide
  exact ⟨_, hVault, rfl, rfl, by decide, by decide⟩

end Sample

end SorobanClient
