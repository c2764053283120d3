import StellarTimelock.Client.AutoHeal
import StellarTimelock.Client.StatusSoundness
import StellarTimelock.Client.VaultEvents

/-! The list and the detail of a vault when nothing can be simulated: which
source each of them shows, and when the two show the same. -/
namespace SorobanClient

open XlmVault FloatingPoint

variable {Address : Type}

/-- A row of the backend that the overlay reads as withdrawn. -/
def RemoteMeta.gone (r : RemoteMeta) : Prop :=
  r.onChainStatus = some "live" ∨ r.onChainStatus = some "withdrawn"

instance (r : RemoteMeta) : Decidable r.gone := inferInstanceAs (Decidable (_ ∨ _))

/-- The balance that the overlay shows of a row of the backend. -/
def RemoteMeta.left (r : RemoteMeta) : Rat :=
  if r.onChainStatus = some "live" then 0 else r.balanceXlm.getD 0

/-! The sources of the detail, in the order in which it turns to them. -/

/-- The rows of the backend, none if it does not answer. -/
def Session.metas (s : Session Address) (owner : String) : List RemoteMeta :=
  (s.remoteMetas owner).getD []

/-- The visible events of the vault from its `create` event on, as far as they
name the owner of the first visible event of the vault. -/
def seededFor (s : Session Address) (id : String) : List ParsedEvent :=
  (firstEvent s id).elim [] fun found => seeded (s.events.getD []) found.ownerPublicKey id

def cachedFor (s : Session Address) (owner id : String) : Option Vault :=
  ((s.cachedVaults owner).getD []).find? fun v => v.vaultId = id

def metaFor (s : Session Address) (owner id : String) : Option RemoteMeta :=
  (s.metas owner).find? fun r => r.vaultId = id

/-- What the detail of a vault is made of. -/
inductive DetailSource where
  | events (seeded : List ParsedEvent)
  | cached (row : Vault)
  | backend (r : RemoteMeta)

/-- The first source that has the vault. The cache and the backend are asked for
the owner of its first visible event, or else for the owner given. -/
def detailSource (s : Session Address) (id : String) (ownerHint : Option String) :
    Option DetailSource :=
  if seededFor s id ≠ [] then some (.events (seededFor s id))
  else (inferredOwner s id ownerHint).bind fun owner =>
    ((cachedFor s owner id).map .cached).or ((metaFor s owner id).map .backend)

/-! The sources of the list. -/

/-- What a listed row is made of. -/
inductive RowSource where
  /-- A row whose times are set, or an archived one, is passed through. -/
  | kept (v : Vault)
  /-- A row without its times is repaired from the backend. -/
  | repaired (v : Vault) (r : RemoteMeta)
  /-- If the backend has neither an unlock time nor a balance, nothing is left of it. -/
  | emptied
  | overlaid (r : RemoteMeta)

/-- What becomes of a row of the merge. Without a backend row it is dropped, if
it is archived or its times are not set. -/
def rowSource (metas : List RemoteMeta) (v : Vault) : Option RowSource :=
  if v.status = .archived ∨ 0 < v.unlockTimestamp ∧ 0 < v.createdTimestamp then
    if v.status = .archived ∧ metaById metas v.vaultId = none then none else some (.kept v)
  else (metaById metas v.vaultId).map fun r =>
    if 0 < r.unlockTimestamp.getD 0 ∨ 0 < r.balanceXlm.getD 0 then .repaired v r else .emptied

/-- The rows that the list repairs: those of the merge, or of the cache when
nothing is replayed. -/
def fallbackRows [Arithmetic] (s : Session Address) (owner : String) : List Vault :=
  let cached := (s.cachedVaults owner).getD []
  let replayed := (s.events.map fun events => aggregateVaultsFromEvents (s.loadMeta owner) s.nowSec
    events owner (metaById (s.metas owner))).getD []
  if replayed ≠ [] then s.mergeVaults cached replayed else cached

/-- The id and the source of every row that the list shows. -/
def Lists [Arithmetic] (s : Session Address) (owner id : String) (source : RowSource) : Prop :=
  (∃ v ∈ fallbackRows s owner, v.vaultId = id ∧ rowSource (s.metas owner) v = some source) ∨
    ∃ r ∈ s.metas owner, ¬ HasRow (fallbackRows s owner) r.vaultId ∧ r.vaultId = id ∧
      source = .overlaid r

/-- When a listed row and a detail made of these sources have the same status,
balance and unlock time, in terms of what the events, the cached row and the rows
of the backend say. -/
def Agree [Arithmetic] (nowSec : Int) : RowSource → DetailSource → Prop
  | .kept v, .events es => v.unlockTimestamp = lastDay es ∧
      if withdraws es then v.status = .withdrawn ∧ v.balance = 0
      else v.balance = paid es ∧ v.status = if lastDay es ≤ nowSec then .unlocked else .locked
  | .kept v, .cached row => row.status = v.status ∧ row.balance = v.balance ∧
      row.unlockTimestamp = v.unlockTimestamp
  | .kept v, .backend r => v.unlockTimestamp = r.unlockTimestamp.getD 0 ∧ v.balance = r.left ∧
      v.status = if r.gone then .withdrawn else .archived
  | .repaired v r, .events es => r.unlockTimestamp.getD v.unlockTimestamp = lastDay es ∧
      if withdraws es then
        r.onChainStatus = some "withdrawn" ∧ r.balanceXlm.getD v.balance = 0
      else r.onChainStatus ≠ some "withdrawn" ∧ r.onChainStatus ≠ some "archived" ∧
        r.balanceXlm.getD v.balance = paid es ∧
          (r.unlockTimestamp.getD 0 ≤ nowSec ↔ lastDay es ≤ nowSec)
  | .repaired v r, .cached row => row.unlockTimestamp = r.unlockTimestamp.getD v.unlockTimestamp ∧
      row.balance = r.balanceXlm.getD v.balance ∧
        row.status = if r.onChainStatus = some "withdrawn" then .withdrawn
          else if r.onChainStatus = some "archived" then .archived
          else if r.unlockTimestamp.getD 0 ≤ nowSec then .unlocked else .locked
  -- The first backend row of the detail's owner, and the last one of the list's.
  | .repaired v r, .backend first =>
      first.unlockTimestamp.getD 0 = r.unlockTimestamp.getD v.unlockTimestamp ∧
        first.left = r.balanceXlm.getD v.balance ∧
          r.onChainStatus = if first.gone then some "withdrawn" else some "archived"
  -- An archived row never agrees with events.
  | .emptied, .events _ => False
  | .emptied, .cached row => row.status = .archived ∧ row.balance = 0 ∧ row.unlockTimestamp = 0
  | .emptied, .backend r => ¬ r.gone ∧ r.left = 0 ∧ r.unlockTimestamp.getD 0 = 0
  -- The overlay never agrees with events of a vault that is not withdrawn.
  | .overlaid r, .events es => withdraws es = true ∧ r.gone ∧ r.left = 0 ∧
      r.unlockTimestamp.getD 0 = lastDay es
  | .overlaid r, .cached row => row.unlockTimestamp = r.unlockTimestamp.getD 0 ∧
      row.balance = r.left ∧ row.status = if r.gone then .withdrawn else .archived
  | .overlaid r, .backend first => first.unlockTimestamp.getD 0 = r.unlockTimestamp.getD 0 ∧
      first.left = r.left ∧ (first.gone ↔ r.gone)

/-- The backend says nothing of a vault that its events do not say. -/
structure Silent [Arithmetic] (r : Option RemoteMeta) (es : List ParsedEvent) : Prop where
  unlock : ∀ t, r.bind (·.unlockTimestamp) = some t → 0 < t → t = lastDay es
  status : withdraws es = false → r.bind (·.onChainStatus) ≠ some "withdrawn"
  balance : withdraws es = false → ∀ xlm, r.bind (·.balanceXlm) = some xlm → xlm = paid es

/-! The three values that a source stands for. -/

/-- What the list and the detail of a vault are to agree on. -/
structure Figures where
  status : Status
  balance : Rat
  unlockTimestamp : Int
  deriving DecidableEq

def Vault.figures (v : Vault) : Figures := ⟨v.status, v.balance, v.unlockTimestamp⟩

def RemoteMeta.figures (r : RemoteMeta) : Figures :=
  ⟨if r.gone then .withdrawn else .archived, r.left, r.unlockTimestamp.getD 0⟩

/-- What the events alone say of a vault. -/
def eventFigures [Arithmetic] (nowSec : Int) (es : List ParsedEvent) : Figures where
  status :=
    if withdraws es then .withdrawn else if lastDay es ≤ nowSec then .unlocked else .locked
  balance := if withdraws es then 0 else paid es
  unlockTimestamp := lastDay es

def DetailSource.figures [Arithmetic] (nowSec : Int) : DetailSource → Figures
  | .events es => eventFigures nowSec es
  | .cached row => row.figures
  | .backend r => r.figures

def RowSource.figures (nowSec : Int) : RowSource → Figures
  | .kept v => v.figures
  | .repaired v r =>
      { status := if r.onChainStatus = some "withdrawn" then .withdrawn
          else if r.onChainStatus = some "archived" then .archived
          else if r.unlockTimestamp.getD 0 ≤ nowSec then .unlocked else .locked
        balance := r.balanceXlm.getD v.balance
        unlockTimestamp := r.unlockTimestamp.getD v.unlockTimestamp }
  | .emptied => ⟨.archived, 0, 0⟩
  | .overlaid r => r.figures

theorem overlayRow_figures (owner : String) (nowSec : Int) (r : RemoteMeta) :
    (overlayRow owner nowSec r).row.figures = r.figures := by
  unfold overlayRow RemoteMeta.figures RemoteMeta.gone RemoteMeta.left Vault.figures
  by_cases hLive : r.onChainStatus = some "live"
  · simp [hLive]
  · by_cases hDone : r.onChainStatus = some "withdrawn"
    · simp [hDone]
    · simp [hLive, hDone]

/-- What the repair makes of a row of the merge. -/
theorem sanitise_source (nowSec : Int) (metas : List RemoteMeta) (v : Vault) :
    (anchored metas (sanitise nowSec metas v) = true ↔ (rowSource metas v).isSome = true) ∧
      ∀ source, rowSource metas v = some source →
        (sanitise nowSec metas v).figures = source.figures nowSec := by
  unfold rowSource
  by_cases hKept : v.status = .archived ∨ 0 < v.unlockTimestamp ∧ 0 < v.createdTimestamp
  · have hUntouched : sanitise nowSec metas v = v := by
      unfold sanitise
      refine if_neg ?_
      rintro ⟨hStatus, hUnset⟩
      rcases hKept with hArchived | hDated
      · exact hStatus hArchived
      · omega
    rw [if_pos hKept, hUntouched]
    unfold anchored
    constructor
    · split_ifs with hDropped
      · simp [hDropped]
      · rcases not_and_or.mp hDropped with hStatus | hFound
        · simp [hStatus]
        · simp [Option.isSome_iff_ne_none.mpr hFound]
    · intro source hSource
      split_ifs at hSource
      cases hSource
      rfl
  · obtain ⟨hStatus, hUnset⟩ := not_or.mp hKept
    have hRepaired : v.status ≠ .archived ∧ (v.unlockTimestamp ≤ 0 ∨ v.createdTimestamp ≤ 0) := by
      refine ⟨hStatus, ?_⟩
      omega
    rw [if_neg hKept]
    have hId : (sanitise nowSec metas v).vaultId = v.vaultId := sanitise_vaultId nowSec metas v
    unfold anchored
    rw [hId]
    cases hFound : metaById metas v.vaultId with
    | none =>
        unfold sanitise
        rw [if_pos hRepaired, hFound]
        simp
    | some r =>
        refine ⟨by simp, ?_⟩
        intro source hSource
        rw [Option.map_some, Option.some.injEq] at hSource
        unfold sanitise
        rw [if_pos hRepaired, hFound]
        by_cases hUsable : 0 < r.unlockTimestamp.getD 0 ∨ 0 < r.balanceXlm.getD 0
        · rw [if_pos hUsable] at hSource
          rw [← hSource]
          simp only [Option.filter_some, decide_eq_true hUsable, if_true]
          rfl
        · rw [if_neg hUsable] at hSource
          rw [← hSource]
          simp only [Option.filter_some, decide_eq_false hUsable, Bool.false_eq_true, if_false]
          rfl

/-- The table says of every two sources whether they stand for the same values. -/
theorem agree_iff [Arithmetic] (nowSec : Int) (source : RowSource) (detail : DetailSource) :
    Agree nowSec source detail ↔ detail.figures nowSec = source.figures nowSec := by
  cases source with
  | kept v =>
      cases detail with
      | events es =>
          simp only [Agree, DetailSource.figures, RowSource.figures, eventFigures, Vault.figures,
            Figures.mk.injEq]
          cases withdraws es <;> simp <;> grind
      | cached row => simp [Agree, DetailSource.figures, RowSource.figures, Vault.figures]
      | backend r =>
          simp only [Agree, DetailSource.figures, RowSource.figures, RemoteMeta.figures,
            Vault.figures, Figures.mk.injEq]
          grind
  | repaired v r =>
      cases detail with
      | events es =>
          simp only [Agree, DetailSource.figures, RowSource.figures, eventFigures, Figures.mk.injEq]
          grind
      | cached row =>
          simp only [Agree, DetailSource.figures, RowSource.figures, Vault.figures,
            Figures.mk.injEq]
          grind
      | backend first =>
          simp only [Agree, DetailSource.figures, RowSource.figures, RemoteMeta.figures,
            Figures.mk.injEq]
          grind
  | emptied =>
      cases detail with
      | events es =>
          simp only [Agree, DetailSource.figures, RowSource.figures, eventFigures, Figures.mk.injEq]
          grind
      | cached row => simp [Agree, DetailSource.figures, RowSource.figures, Vault.figures]
      | backend r =>
          simp only [Agree, DetailSource.figures, RowSource.figures, RemoteMeta.figures,
            Figures.mk.injEq]
          grind
  | overlaid r =>
      cases detail with
      | events es =>
          simp only [Agree, DetailSource.figures, RowSource.figures, eventFigures,
            RemoteMeta.figures, Figures.mk.injEq]
          grind
      | cached row =>
          simp only [Agree, DetailSource.figures, RowSource.figures, RemoteMeta.figures,
            Vault.figures, Figures.mk.injEq]
          grind
      | backend first =>
          simp only [Agree, DetailSource.figures, RowSource.figures, RemoteMeta.figures,
            Figures.mk.injEq]
          grind

/-! What the two methods return. -/

/-- The rows of the replay, too, have distinct ids, in whatever order they are. -/
theorem aggregate_nodup [Arithmetic] (loadMeta : String → VaultMeta) (nowSec : Int) (events : List ParsedEvent)
    (owner : String) (remoteMetasById : String → Option RemoteMeta) :
    ((aggregateVaultsFromEvents loadMeta nowSec events owner remoteMetasById).map
      (·.vaultId)).Nodup := by
  unfold aggregateVaultsFromEvents
  refine (((List.perm_insertionSort _ _).map _).nodup_iff).mpr ?_
  rw [List.map_map]
  exact replay_nodup events owner

theorem find?_aggregate [Arithmetic] (loadMeta : String → VaultMeta) (nowSec : Int) (events : List ParsedEvent)
    (owner : String) (remoteMetasById : String → Option RemoteMeta) (id : String) :
    (aggregateVaultsFromEvents loadMeta nowSec events owner remoteMetasById).find?
        (fun v => v.vaultId = id) =
      ((replay events owner).find? fun v => v.vaultId = id).map fun v =>
        v.row owner nowSec (loadMeta v.vaultId) (remoteMetasById v.vaultId) := by
  cases hFound : (replay events owner).find? fun v => v.vaultId = id with
  | some a =>
      obtain ⟨hMem, hId⟩ := (find?_key_iff (replay_nodup events owner)).mp hFound
      apply (find?_key_iff (aggregate_nodup loadMeta nowSec events owner remoteMetasById)).mpr
      exact ⟨mem_aggregate.mpr ⟨a, hMem, rfl⟩, hId⟩
  | none =>
      rw [List.find?_eq_none] at hFound
      apply List.find?_eq_none.mpr
      intro row hRow hId
      obtain ⟨a, ha, rfl⟩ := mem_aggregate.mp hRow
      exact hFound a ha hId

/-- Without a backend row the row of a replayed vault says what its events say. -/
theorem accumAfter_row_figures [Arithmetic] (owner : String) (nowSec : Int) (offMeta : VaultMeta)
    {c : ParsedEvent} (later : List ParsedEvent) (hCreate : c.kind = .create) :
    ((accumAfter c later).row owner nowSec offMeta none).figures =
      eventFigures nowSec (c :: later) := by
  have hUnlock := accumAfter_unlock later hCreate
  have hWithdrawn := accumAfter_withdrawn later hCreate
  unfold Accum.row eventFigures Vault.figures
  simp only [Option.bind_none, reduceCtorEq, decide_false, Bool.or_false, hUnlock, hWithdrawn]
  cases hGone : withdraws (c :: later) with
  | true => rfl
  | false => rw [accumAfter_balance later hCreate hGone]

/-- The events step answers exactly when the vault has a `create` event. -/
theorem fromEvents_figures [Arithmetic] (s : Session Address) (id : String) :
    (fromEvents s id).map Vault.figures =
      if seededFor s id ≠ [] then some (eventFigures s.nowSec (seededFor s id)) else none := by
  unfold fromEvents
  cases hFirst : firstEvent s id with
  | none =>
      have hNone : seededFor s id = [] := by rw [seededFor, hFirst, Option.elim_none]
      rw [hNone]
      rfl
  | some found =>
      have hSeededFor : seededFor s id = seeded (s.events.getD []) found.ownerPublicKey id := by
        rw [seededFor, hFirst, Option.elim_some]
      rw [hSeededFor, Option.bind_some, find?_aggregate, find?_replay_seeded]
      by_cases hSome : seeded (s.events.getD []) found.ownerPublicKey id ≠ []
      · rw [if_pos hSome]
        obtain ⟨c, later, hSeeded⟩ := List.exists_cons_of_ne_nil hSome
        rw [hSeeded]
        exact congrArg some (accumAfter_row_figures _ _ _ later (seeded_head hSeeded).1)
      · rw [if_neg hSome, not_not.mp hSome]
        rfl

/-- Without live ids every row of the backend goes through the overlay. -/
theorem find?_overlay (owner : String) (nowSec : Int) (remotes : List RemoteMeta) (id : String) :
    (((buildArchivedOverlayFromMetas owner nowSec remotes []).map (·.row)).find?
        fun v => v.vaultId = id).map Vault.figures =
      (remotes.find? fun r => r.vaultId = id).map RemoteMeta.figures := by
  have hAll : (remotes.filter fun r => r.vaultId ∉ ([] : List String)) = remotes :=
    List.filter_eq_self.mpr fun r _ => decide_eq_true List.not_mem_nil
  unfold buildArchivedOverlayFromMetas
  rw [hAll, List.map_map, List.find?_map, Option.map_map]
  congr 1
  funext r
  exact overlayRow_figures owner nowSec r

/-- What `getVault` returns when nothing can be simulated. -/
theorem getVault_figures [Arithmetic] {s : Session Address} (h : s.simulates = false)
    (storage : Storage Address) (id : String) (ownerHint : Option String) :
    (getVault s storage id ownerHint).row.map Vault.figures =
      (detailSource s id ownerHint).map (DetailSource.figures s.nowSec) := by
  have hEvents := fromEvents_figures s id
  unfold getVault detailSource
  rw [h]
  simp only [Bool.false_eq_true, if_false]
  by_cases hSeeded : seededFor s id ≠ []
  · rw [if_pos hSeeded] at hEvents ⊢
    obtain ⟨row, hRow, hFigures⟩ := Option.map_eq_some_iff.mp hEvents
    rw [hRow]
    exact congrArg some hFigures
  · rw [if_neg hSeeded] at hEvents ⊢
    rw [Option.map_eq_none_iff.mp hEvents]
    cases inferredOwner s id ownerHint with
    | none => rfl
    | some owner =>
        unfold cachedFor metaFor
        simp only [Option.bind_some]
        cases hCached : ((s.cachedVaults owner).getD []).find? fun v => v.vaultId = id with
        | some row => rfl
        | none =>
            refine (find?_overlay owner s.nowSec ((s.remoteMetas owner).getD []) id).trans ?_
            rw [Option.map_none, Option.none_or, Option.map_map]
            rfl

theorem liveVaults_fallback [Arithmetic] {s : Session Address} (h : s.simulates = false)
    (storage : Storage Address) (owner : Address) :
    (liveVaults s storage owner (s.metas (s.key.encode owner))).2 =
      fallbackRows s (s.key.encode owner) := by
  have hNone : simulateList s storage owner = none := by
    rw [simulateList, h]
    rfl
  unfold liveVaults fallbackRows
  simp only [hNone]
  split_ifs with hReplayed hCached
  · rfl
  · rfl
  · exact (not_not.mp hCached).symm

/-- A row is listed for a repaired row that is anchored, or for a row of the
backend whose id no live row has. -/
theorem mem_listVaults [Arithmetic] {s : Session Address} (h : s.simulates = false)
    (storage : Storage Address) (owner : Address) (row : Vault) :
    let ownerText := s.key.encode owner
    row ∈ (listVaults s storage owner).rows ↔
      (∃ v ∈ fallbackRows s ownerText,
        anchored (s.metas ownerText) (sanitise s.nowSec (s.metas ownerText) v) = true ∧
          sanitise s.nowSec (s.metas ownerText) v = row) ∨
      ∃ r ∈ s.metas ownerText, ¬ HasRow (fallbackRows s ownerText) r.vaultId ∧
        (overlayRow ownerText s.nowSec r).row = row := by
  intro ownerText
  have hLive : (liveVaults s storage owner ((s.remoteMetas (s.key.encode owner)).getD [])).2 =
      fallbackRows s ownerText := liveVaults_fallback h storage owner
  unfold listVaults buildArchivedOverlayFromMetas
  rw [List.mem_insertionSort, List.mem_append, hLive, List.map_map]
  apply or_congr
  · simp only [List.mem_filter, List.mem_map]
    constructor
    · rintro ⟨⟨v, hv, rfl⟩, hAnchored⟩
      exact ⟨v, hv, hAnchored, rfl⟩
    · rintro ⟨v, hv, hAnchored, rfl⟩
      exact ⟨⟨v, hv, rfl⟩, hAnchored⟩
  · rw [List.mem_map]
    constructor
    · rintro ⟨r, hr, rfl⟩
      obtain ⟨hMem, hUnseen⟩ := List.mem_filter.mp hr
      have hUnlisted := of_decide_eq_true hUnseen
      exact ⟨r, hMem, fun hRow => hUnlisted ((hasRow_kept_iff hMem s.nowSec _).mpr hRow), rfl⟩
    · rintro ⟨r, hMem, hUnseen, rfl⟩
      refine ⟨r, List.mem_filter.mpr ⟨hMem, decide_eq_true ?_⟩, rfl⟩
      exact fun hListed => hUnseen ((hasRow_kept_iff hMem s.nowSec _).mp hListed)

/-- Every listed row has a source, and every source a listed row. -/
theorem mem_listVaults_source [Arithmetic] {s : Session Address} (h : s.simulates = false)
    (storage : Storage Address) (owner : Address) (id : String) (f : Figures) :
    (∃ row ∈ (listVaults s storage owner).rows, row.vaultId = id ∧ row.figures = f) ↔
      ∃ source, Lists s (s.key.encode owner) id source ∧ source.figures s.nowSec = f := by
  constructor
  · rintro ⟨row, hRow, hId, hFigures⟩
    rcases (mem_listVaults h storage owner row).mp hRow with
      ⟨v, hv, hAnchored, rfl⟩ | ⟨r, hr, hUnseen, rfl⟩
    · obtain ⟨hSome, hSame⟩ := sanitise_source s.nowSec (s.metas (s.key.encode owner)) v
      obtain ⟨source, hSource⟩ := Option.isSome_iff_exists.mp (hSome.mp hAnchored)
      rw [sanitise_vaultId] at hId
      exact ⟨source, Or.inl ⟨v, hv, hId, hSource⟩, (hSame source hSource).symm.trans hFigures⟩
    · rw [overlayRow_figures] at hFigures
      exact ⟨.overlaid r, Or.inr ⟨r, hr, hUnseen, hId, rfl⟩, hFigures⟩
  · rintro ⟨source, ⟨v, hv, hId, hSource⟩ | ⟨r, hr, hUnseen, hId, rfl⟩, hFigures⟩
    · obtain ⟨hSome, hSame⟩ := sanitise_source s.nowSec (s.metas (s.key.encode owner)) v
      have hAnchored := hSome.mpr (Option.isSome_iff_exists.mpr ⟨source, hSource⟩)
      refine ⟨_, (mem_listVaults h storage owner _).mpr (Or.inl ⟨v, hv, hAnchored, rfl⟩), ?_,
        (hSame source hSource).trans hFigures⟩
      rw [sanitise_vaultId]
      exact hId
    · refine ⟨_, (mem_listVaults h storage owner _).mpr (Or.inr ⟨r, hr, hUnseen, rfl⟩), hId, ?_⟩
      rw [overlayRow_figures]
      exact hFigures

/-! Rows as the replay gives them. -/

section Row

variable (owner : String) (nowSec : Int) (offMeta : VaultMeta) (r : Option RemoteMeta) (v : Accum)

theorem row_unlock_iff : (v.row owner nowSec offMeta r).unlockTimestamp = v.unlockTimestamp ↔
    ∀ t, r.bind (·.unlockTimestamp) = some t → 0 < t → t = v.unlockTimestamp := by
  unfold Accum.row
  simp only
  cases r.bind (·.unlockTimestamp) with
  | none => simp
  | some t =>
      simp only [Option.some.injEq, forall_eq']
      split_ifs with hPositive
      · exact ⟨fun h _ => h, fun h => h hPositive⟩
      · exact iff_of_true rfl (fun h => absurd h hPositive)

theorem row_status : (v.row owner nowSec offMeta r).status =
    if v.withdrawn || r.bind (·.onChainStatus) = some "withdrawn" then .withdrawn
    else if (v.row owner nowSec offMeta r).unlockTimestamp ≤ nowSec then .unlocked else .locked :=
  rfl

theorem row_balance_withdrawn (h : v.withdrawn = true) :
    (v.row owner nowSec offMeta r).balance = 0 := by
  unfold Accum.row
  simp only [h, Bool.true_or, if_true]

theorem row_balance_iff (h : v.withdrawn = false)
    (hStatus : r.bind (·.onChainStatus) ≠ some "withdrawn") :
    (v.row owner nowSec offMeta r).balance = v.balanceXlm ↔
      ∀ xlm, r.bind (·.balanceXlm) = some xlm → xlm = v.balanceXlm := by
  unfold Accum.row
  simp only [h, hStatus, decide_false, Bool.or_self, Bool.false_eq_true, if_false]
  cases r.bind (·.balanceXlm) with
  | none => simp
  | some xlm => simp

/-- A row of the replay agrees with its own events exactly if the backend adds
nothing to them. -/
theorem kept_row_iff [Arithmetic] {c : ParsedEvent} (later : List ParsedEvent)
    (hCreate : c.kind = .create) :
    Agree nowSec (.kept ((accumAfter c later).row owner nowSec offMeta r)) (.events (c :: later)) ↔
      Silent r (c :: later) := by
  have hLast := accumAfter_unlock later hCreate
  have hWithdrawn := accumAfter_withdrawn later hCreate
  have hUnlock := row_unlock_iff owner nowSec offMeta r (accumAfter c later)
  have hStatus := row_status owner nowSec offMeta r (accumAfter c later)
  rw [hLast] at hUnlock
  rw [hWithdrawn] at hStatus
  simp only [Agree]
  rw [hUnlock, hStatus]
  cases hDone : withdraws (c :: later) with
  | true =>
      have hEmpty := row_balance_withdrawn owner nowSec offMeta r (accumAfter c later)
        (hWithdrawn.trans hDone)
      rw [hEmpty]
      simp only [Bool.true_or, if_true, and_self, and_true]
      refine ⟨fun h => ⟨h, ?_, ?_⟩, fun h => h.unlock⟩
      · intro hLive
        rw [hDone] at hLive
        cases hLive
      · intro hLive
        rw [hDone] at hLive
        cases hLive
  | false =>
      simp only [Bool.false_or, Bool.false_eq_true, if_false, decide_eq_true_eq]
      by_cases hGone : r.bind (·.onChainStatus) = some "withdrawn"
      · rw [if_pos hGone]
        refine iff_of_false ?_ (fun h => h.status hDone hGone)
        rintro ⟨-, -, hSame⟩
        split_ifs at hSame
      · rw [if_neg hGone, ← accumAfter_balance later hCreate hDone,
          row_balance_iff owner nowSec offMeta r _ (hWithdrawn.trans hDone) hGone,
          accumAfter_balance later hCreate hDone]
        constructor
        · rintro ⟨hSame, hBalance, -⟩
          exact ⟨hSame, fun _ => hGone, fun _ => hBalance⟩
        · intro h
          rw [hUnlock.mpr h.unlock]
          exact ⟨h.unlock, h.balance hDone, rfl⟩

end Row

/-- With nothing to simulate, every listed row has a detail with the same three
values if and only if its source agrees with the first source of its detail. For
a row as the replay gives it and the same events this says that the backend adds
nothing to the events. -/
theorem list_detail_agree_iff [Arithmetic] (s : Session Address) (hSimulates : s.simulates = false)
    (storage : Storage Address) (owner : Address) :
    let ownerText := s.key.encode owner
    ((∀ row ∈ (listVaults s storage owner).rows, ∃ v,
        (getVault s storage row.vaultId (some ownerText)).row = some v ∧ v.status = row.status ∧
          v.balance = row.balance ∧ v.unlockTimestamp = row.unlockTimestamp) ↔
      ∀ id source, Lists s ownerText id source →
        ∃ detail, detailSource s id (some ownerText) = some detail ∧
          Agree s.nowSec source detail) ∧
    ∀ events owner id c later, seeded events owner id = c :: later → ∀ offMeta r,
      (Agree s.nowSec (.kept ((accumAfter c later).row owner s.nowSec offMeta r))
        (.events (c :: later)) ↔ Silent r (c :: later)) := by
  intro ownerText
  refine ⟨?_, fun events owner id c later hSeeded offMeta r =>
    kept_row_iff owner s.nowSec offMeta r later (seeded_head hSeeded).1⟩
  have hDetail (id : String) (f : Figures) :
      (∃ v, (getVault s storage id (some ownerText)).row = some v ∧ v.figures = f) ↔
        ∃ detail, detailSource s id (some ownerText) = some detail ∧
          detail.figures s.nowSec = f := by
    rw [← Option.map_eq_some_iff, getVault_figures hSimulates storage, Option.map_eq_some_iff]
  have hRows := mem_listVaults_source hSimulates storage owner
  constructor
  · intro hAgree id source hLists
    obtain ⟨row, hRow, hId, hFigures⟩ := (hRows id _).mpr ⟨source, hLists, rfl⟩
    obtain ⟨v, hFound, hStatus, hBalance, hUnlock⟩ := hAgree row hRow
    rw [hId] at hFound
    have hSame : v.figures = source.figures s.nowSec := by
      rw [← hFigures]
      unfold Vault.figures
      rw [hStatus, hBalance, hUnlock]
    obtain ⟨detail, hSource, hShown⟩ := (hDetail id _).mp ⟨v, hFound, hSame⟩
    exact ⟨detail, hSource, (agree_iff s.nowSec source detail).mpr hShown⟩
  · intro hAgree row hRow
    obtain ⟨source, hLists, hFigures⟩ := (hRows row.vaultId row.figures).mp ⟨row, hRow, rfl, rfl⟩
    obtain ⟨detail, hSource, hMatches⟩ := hAgree row.vaultId source hLists
    have hShown := (agree_iff s.nowSec source detail).mp hMatches
    obtain ⟨v, hFound, hSame⟩ := (hDetail row.vaultId row.figures).mpr
      ⟨detail, hSource, hShown.trans hFigures⟩
    simp only [Vault.figures, Figures.mk.injEq] at hSame
    exact ⟨v, hFound, hSame⟩

/-! A vault that unlocks at noon. -/

section Sample

attribute [local instance] Arithmetic.double

/-- What the first read of the vault has written to the backend. -/
def noonMeta : RemoteMeta where
  vaultId := "0"
  description := ""
  template := "custom"
  balanceXlm := some (stroopsToXlm 700)
  unlockTimestamp := some 1767268800
  onChainStatus := some "live"

/-- A device on which the simulated reads fail. -/
def noonDevice : Session Nat where
  key := numbered
  simulates := false
  events := some [noonEvent]
  cachedVaults _ := none
  remoteMetas _ := some [noonMeta]
  loadMeta _ _ := emptyMeta
  mergeVaults := mergeById
  scU64 id := if id = "0" then some 0 else none
  nowSec := 1767240000

/-- In the morning of its last day the list shows the vault as locked, its
detail as unlocked. -/
theorem noon_list_and_detail :
    let storage := (Execution.final (step (0 : Nat)) sampleGenesis.world noonRun).storage
    (listVaults noonDevice storage 7).rows.map (fun v => (v.vaultId, v.status, v.unlockTimestamp)) =
      [("0", .locked, 1767268800)] ∧
    (getVault noonDevice storage "0" (some "7")).row.map (fun v => (v.status, v.unlockTimestamp)) =
      some (.unlocked, 1767225600) ∧
    ¬ ∀ row ∈ (listVaults noonDevice storage 7).rows, ∃ v,
      (getVault noonDevice storage row.vaultId (some "7")).row = some v ∧ v.status = row.status ∧
        v.balance = row.balance ∧ v.unlockTimestamp = row.unlockTimestamp := by
  intro storage
  have hList : (listVaults noonDevice storage 7).rows.map
      (fun v => (v.vaultId, v.status, v.unlockTimestamp)) = [("0", .locked, 1767268800)] := by
    rfl
  have hDetail : (getVault noonDevice storage "0" (some "7")).row.map
      (fun v => (v.status, v.unlockTimestamp)) = some (.unlocked, 1767225600) := by
    rfl
  refine ⟨hList, hDetail, ?_⟩
  intro hAgree
  obtain ⟨row, hRows, hRow⟩ := List.map_eq_singleton_iff.mp hList
  simp only [Prod.mk.injEq] at hRow
  obtain ⟨hId, -, hListed⟩ := hRow
  have hMem : row ∈ (listVaults noonDevice storage 7).rows := by
    rw [hRows]
    exact List.mem_singleton.mpr rfl
  obtain ⟨v, hFound, -, -, hSame⟩ := hAgree row hMem
  rw [hId] at hFound
  rw [hFound] at hDetail
  simp only [Option.map_some, Option.some.injEq, Prod.mk.injEq] at hDetail
  rw [hSame, hListed] at hDetail
  exact absurd hDetail.2 (by decide)

/-- A row of the backend for a vault that is gone from the events. -/
def goneMeta : RemoteMeta := { noonMeta with vaultId := "3", onChainStatus := some "withdrawn" }

/-- The same device before the backend has a row of the noon vault. -/
def silentDevice : Session Nat := { noonDevice with remoteMetas := fun _ => some [goneMeta] }

/-- Then the list and the details show the same of both vaults. -/
theorem list_detail_agree_iff_sample :
    let storage := (Execution.final (step (0 : Nat)) sampleGenesis.world noonRun).storage
    (listVaults silentDevice storage 7).rows.map (·.vaultId) = ["0", "3"] ∧
    ∀ row ∈ (listVaults silentDevice storage 7).rows, ∃ v,
      (getVault silentDevice storage row.vaultId (some "7")).row = some v ∧
        v.status = row.status ∧ v.balance = row.balance ∧
          v.unlockTimestamp = row.unlockTimestamp := by
  intro storage
  refine ⟨rfl, ?_⟩
  have hSeeded : seeded [noonEvent] "7" "0" = [noonEvent] := by decide +kernel
  obtain ⟨hAgree, hSilent⟩ := list_detail_agree_iff silentDevice rfl storage 7
  apply hAgree.mpr
  rintro id source (⟨v, hv, hId, hSource⟩ | ⟨r, hr, -, hId, hSource⟩)
  · have hRow : v = (accumAfter noonEvent []).row "7" silentDevice.nowSec emptyMeta none :=
      List.mem_singleton.mp hv
    subst hRow
    have hKept := Option.some.inj hSource
    subst hId hKept
    refine ⟨.events [noonEvent], rfl, (hSilent _ _ _ _ _ hSeeded _ _).mpr ⟨?_, ?_, ?_⟩⟩
    · intro t hNone
      cases hNone
    · intro _ hNone
      cases hNone
    · intro _ xlm hNone
      cases hNone
  · rw [List.mem_singleton.mp hr] at hId hSource
    subst hId hSource
    exact ⟨.backend goneMeta, rfl, rfl, rfl, Iff.rfl⟩

end Sample

end SorobanClient
