import StellarTimelock.Client.Replay
import StellarTimelock.Contract.Allocation

/-! `listVaults` and `getVault`: the sources they choose from, the repair of
rows from the backend, and the overlay of rows only the backend knows. -/
namespace SorobanClient

open XlmVault FloatingPoint

variable {Address : Type}

/-- The answers one call gets and what it finds on the device. A source that
fails is `none`. -/
structure Session (Address : Type) where
  key : StrKey Address
  /-- `simulatePathBroken` is unset and every simulated read succeeds. -/
  simulates : Bool
  /-- `fetchContractEvents`, whatever part of the stream it still reaches. -/
  events : Option (List ParsedEvent)
  /-- `loadCachedVaults`, by owner. -/
  cachedVaults : String → Option (List Vault)
  /-- The meta rows the backend returns, by owner. -/
  remoteMetas : String → Option (List RemoteMeta)
  /-- `loadMeta`, by owner and vault id. -/
  loadMeta : String → String → VaultMeta
  mergeVaults : List Vault → List Vault → List Vault
  /-- How `scU64(BigInt(id))` reads a text, unless it throws. -/
  scU64 : String → Option UInt64
  nowSec : Int

def statusFor (v : XlmVault.Vault Address) (nowSec : Int) : Status :=
  if v.withdrawn then .withdrawn
  else if v.unlockTimestamp.toNat ≤ nowSec then .unlocked else .locked

def toVault [Arithmetic] (key : StrKey Address) (nowSec : Int) (v : XlmVault.Vault Address) (off : VaultMeta) :
    Vault :=
  { vaultId := idText v.vaultId
    ownerPublicKey := key.encode v.owner
    name := v.name
    description := off.description
    template := off.template
    balance := stroopsToXlm v.balance.val
    targetAmount := off.targetAmount
    unlockTimestamp := v.unlockTimestamp.toNat
    createdTimestamp := v.createdTimestamp.toNat
    status := statusFor v nowSec }

/-- `new Map(metas.map((m) => [m.vault_id, m]))`: a later row replaces an
earlier one of the same id. -/
def metaById (metas : List RemoteMeta) (id : String) : Option RemoteMeta :=
  metas.reverse.find? fun m => m.vaultId = id

/-- A row of the overlay with the meta it is made of. `dismissed` records that
`dismissVaultMeta` is called for it. -/
structure Overlay where
  source : RemoteMeta
  row : Vault
  dismissed : Bool
  deriving DecidableEq

def overlayRow (owner : String) (nowSec : Int) (r : RemoteMeta) : Overlay :=
  let recorded : Status :=
    if r.onChainStatus = some "withdrawn" then .withdrawn
    else if r.onChainStatus = some "live" ∧ 0 < r.unlockTimestamp.getD 0 then
      if r.unlockTimestamp.getD 0 ≤ nowSec then .unlocked else .locked
    else .archived
  -- A row the backend still calls live is taken for a stale one.
  let stale : Bool := r.onChainStatus = some "live"
  { source := r
    dismissed := stale
    row :=
      { vaultId := r.vaultId
        ownerPublicKey := owner
        name := (shownName r.name).getD ("Vault #" ++ r.vaultId)
        description := r.description
        template := r.template
        balance := if stale then 0 else r.balanceXlm.getD 0
        targetAmount := r.targetAmount
        unlockTimestamp := r.unlockTimestamp.getD 0
        createdTimestamp := parseIsoToUnix (r.createdAt.or r.updatedAt)
        status := if stale then .withdrawn else recorded } }

def buildArchivedOverlayFromMetas (owner : String) (nowSec : Int) (remotes : List RemoteMeta)
    (liveIds : List String) : List Overlay :=
  (remotes.filter fun r => r.vaultId ∉ liveIds).map (overlayRow owner nowSec)

/-- The repair of one live row whose times are not set. -/
def sanitise (nowSec : Int) (metas : List RemoteMeta) (v : Vault) : Vault :=
  if v.status ≠ .archived ∧ (v.unlockTimestamp ≤ 0 ∨ v.createdTimestamp ≤ 0) then
    let found := metaById metas v.vaultId
    let created :=
      if 0 < v.createdTimestamp then v.createdTimestamp
      else parseIsoToUnix (found.bind fun r => r.createdAt.or r.updatedAt)
    match found.filter fun r => 0 < r.unlockTimestamp.getD 0 ∨ 0 < r.balanceXlm.getD 0 with
    | some r =>
        { v with
          name := (shownName r.name).getD v.name
          description := r.description
          template := r.template
          targetAmount := r.targetAmount.or v.targetAmount
          balance := r.balanceXlm.getD v.balance
          unlockTimestamp := r.unlockTimestamp.getD v.unlockTimestamp
          createdTimestamp := created
          status :=
            if r.onChainStatus = some "withdrawn" then .withdrawn
            else if r.onChainStatus = some "archived" then .archived
            else if r.unlockTimestamp.getD 0 ≤ nowSec then .unlocked else .locked }
    | none =>
        { v with balance := 0, unlockTimestamp := 0, createdTimestamp := created, status := .archived }
  else v

/-- An archived row that no meta anchors is dropped. -/
def anchored (metas : List RemoteMeta) (v : Vault) : Bool :=
  !(v.status = .archived && (metaById metas v.vaultId).isNone)

/-- What is written back to the backend for one live row. -/
structure Snapshot where
  vaultId : String
  balanceXlm : Rat
  unlockTimestamp : Int
  onChainStatus : String
  deriving DecidableEq

def snapshot (v : Vault) : Option Snapshot :=
  if v.status ≠ .archived ∧ 0 < v.unlockTimestamp then
    some ⟨v.vaultId, v.balance, v.unlockTimestamp, if v.status = .withdrawn then "withdrawn" else "live"⟩
  else none

/-- Rows in display order: archived rows last, newer rows first. -/
def displayedBefore (a b : Vault) : Prop :=
  if a.status = .archived ∧ b.status ≠ .archived then False
  else if b.status = .archived ∧ a.status ≠ .archived then True
  else b.createdTimestamp ≤ a.createdTimestamp

instance : DecidableRel displayedBefore := fun a b => by
  unfold displayedBefore
  infer_instance

/-- Which source the live rows came from. -/
inductive LiveSource where
  | simulate
  | events
  | cache
  | nothing
  deriving DecidableEq, Repr

/-- What a call of `listVaults` returns and sends. -/
structure Listing where
  source : LiveSource
  /-- The list handed to `saveCachedVaults`. -/
  saved : Option (List Vault)
  snapshots : List Snapshot
  overlay : List Overlay
  rows : List Vault

/-- The simulate path: `list_owned`, then `get_vault` for every id. -/
def simulateList [Arithmetic] (s : Session Address) (storage : Storage Address) (owner : Address) :
    Option (List Vault) :=
  if s.simulates then
    (storage.listOwned owner).mapM fun id => (storage.vault id).map fun v =>
      toVault s.key s.nowSec v (s.loadMeta (s.key.encode owner) (idText v.vaultId))
  else none

/-- The live rows before their repair. -/
def liveVaults [Arithmetic] (s : Session Address) (storage : Storage Address) (owner : Address)
    (metas : List RemoteMeta) : LiveSource × List Vault :=
  let ownerText := s.key.encode owner
  let cached := (s.cachedVaults ownerText).getD []
  match simulateList s storage owner with
  | some rows => (.simulate, s.mergeVaults cached rows)
  | none =>
      let replayed := (s.events.map fun events =>
        aggregateVaultsFromEvents (s.loadMeta ownerText) s.nowSec events ownerText
          (metaById metas)).getD []
      if replayed ≠ [] then (.events, s.mergeVaults cached replayed)
      else if cached ≠ [] then (.cache, cached)
      else (.nothing, [])

def listVaults [Arithmetic] (s : Session Address) (storage : Storage Address) (owner : Address) : Listing :=
  let ownerText := s.key.encode owner
  let metas := (s.remoteMetas ownerText).getD []
  let live := liveVaults s storage owner metas
  let kept := (live.2.map (sanitise s.nowSec metas)).filter (anchored metas)
  let overlay := buildArchivedOverlayFromMetas ownerText s.nowSec metas (kept.map (·.vaultId))
  { source := live.1
    saved := if live.1 = .simulate ∨ live.1 = .events then some live.2 else none
    snapshots := kept.filterMap snapshot
    overlay
    rows := (kept ++ overlay.map (·.row)).insertionSort displayedBefore }

/-- What a call of `getVault` returns, if anything, and the overlay it built. -/
structure Detail where
  row : Option Vault
  overlay : List Overlay

/-- The first event of the vault the client can see. -/
def firstEvent (s : Session Address) (id : String) : Option ParsedEvent :=
  (s.events.getD []).find? fun e => e.vaultId = id

/-- The events step: the row replayed for the owner of the first event of the
vault, without any backend row. -/
def fromEvents [Arithmetic] (s : Session Address) (id : String) : Option Vault :=
  (firstEvent s id).bind fun found =>
    (aggregateVaultsFromEvents (s.loadMeta found.ownerPublicKey) s.nowSec (s.events.getD [])
      found.ownerPublicKey (fun _ => none)).find? fun v => v.vaultId = id

/-- The owner whose cache and metas the later steps consult. -/
def inferredOwner (s : Session Address) (id : String) (ownerHint : Option String) : Option String :=
  (((firstEvent s id).map (·.ownerPublicKey)).or ownerHint).filter fun owner => owner ≠ ""

def getVault [Arithmetic] (s : Session Address) (storage : Storage Address) (id : String)
    (ownerHint : Option String) : Detail :=
  match if s.simulates then (s.scU64 id).bind storage.vault else none with
  | some v =>
      ⟨some (toVault s.key s.nowSec v (s.loadMeta (s.key.encode v.owner) (idText v.vaultId))), []⟩
  | none =>
      match fromEvents s id with
      | some row => ⟨some row, []⟩
      | none =>
          match inferredOwner s id ownerHint with
          | none => ⟨none, []⟩
          | some owner =>
              match ((s.cachedVaults owner).getD []).find? fun v => v.vaultId = id with
              | some row => ⟨some row, []⟩
              | none =>
                  -- No id is passed as live, so every meta goes through.
                  let overlay := buildArchivedOverlayFromMetas owner s.nowSec
                    ((s.remoteMetas owner).getD []) []
                  ⟨(overlay.map (·.row)).find? fun v => v.vaultId = id, overlay⟩

end SorobanClient
