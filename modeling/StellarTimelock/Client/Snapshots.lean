import StellarTimelock.Client.VaultList
import StellarTimelock.Semantics.Execution

/-! The snapshots that are written back to the backend over a session, and the
registry of the vaults whose last snapshot is taken to be there. -/
namespace SnapshotPush

open SorobanClient Execution

inductive OnChainStatus where
  | live
  | archived
  | withdrawn
  | unknown
  deriving DecidableEq, Repr

/-- What a caller knows of a vault; the others are left out of the body. -/
structure Snap where
  balanceXlm : Option Rat := none
  unlockTimestamp : Option Int := none
  snapshotLedger : Option Nat := none
  onChainStatus : Option OnChainStatus := none
  deriving DecidableEq

/-- The owner and the vault are in the path, the others in the body. -/
structure PatchRequest where
  owner : String
  vaultId : String
  contractId : String
  snap : Snap
  deriving DecidableEq

/-- A request that was sent; its outcome is not known at first. -/
structure Patch where
  request : PatchRequest
  succeeded : Option Bool
  deriving DecidableEq

/-- The active contract, `_frozenSnapshots` and every request of the session,
oldest first. -/
structure State where
  active : String
  frozenSnapshots : List String
  patches : List Patch

inductive Action where
  | push (owner vaultId : String) (snap : Snap)
  /-- The outcome of a request becomes known. -/
  | settle (number : Nat) (succeeds : Bool)
  | switchDeployment (contractId : String)

inductive Pushed where
  | noBackend
  | suppressed
  | sent
  deriving DecidableEq, Repr

def frozenKey (owner vaultId : String) : String := owner ++ "::" ++ vaultId

/-- The stretch of a call up to its `fetch`. -/
def pushSnapshotToBackend (backendUrl : String) (s : State) (owner vaultId : String) (snap : Snap) :
    State × Pushed :=
  if backendUrl = "" then (s, .noBackend)
  else
    let frozenKey := frozenKey owner vaultId
    if snap.onChainStatus = some .withdrawn ∧ frozenKey ∈ s.frozenSnapshots then (s, .suppressed)
    else
      let frozen := if snap.onChainStatus = some .withdrawn then frozenKey :: s.frozenSnapshots
        else s.frozenSnapshots
      ({ s with
          frozenSnapshots := frozen
          patches := s.patches ++ [⟨⟨owner, vaultId, s.active, snap⟩, none⟩] }, .sent)

/-- A later step of the session. A known outcome does not change. -/
def step (backendUrl : String) (s : State) : Action → State × Option Pushed
  | .push owner vaultId snap =>
      let (after, pushed) := pushSnapshotToBackend backendUrl s owner vaultId snap
      (after, some pushed)
  | .settle number succeeds =>
      match s.patches[number]? with
      | none => (s, none)
      | some patch =>
          let known := patch.succeeded.or (some succeeds)
          ({ s with patches := s.patches.set number { patch with succeeded := known } }, none)
  | .switchDeployment contractId => ({ s with active := contractId }, none)

def initial (active : String) : State := ⟨active, [], []⟩

/-- What `listVaults` pushes for a row that it has read. -/
def ofListing (owner : String) (snapshot : Snapshot) : Action :=
  .push owner snapshot.vaultId
    { balanceXlm := some snapshot.balanceXlm
      unlockTimestamp := some snapshot.unlockTimestamp
      onChainStatus := some (if snapshot.onChainStatus = "withdrawn" then .withdrawn else .live) }

/-- A withdrawn snapshot of the vault has reached the backend. -/
def Archived (s : State) (contractId owner vaultId : String) : Prop :=
  ∃ patch ∈ s.patches, patch.succeeded = some true ∧
    patch.request.snap.onChainStatus = some .withdrawn ∧ patch.request.contractId = contractId ∧
    patch.request.owner = owner ∧ patch.request.vaultId = vaultId

/-- A push is held back only for a vault that is archived, and nothing more is
sent for such a vault. -/
def Freezes (backendUrl : String) (s : State) : Action → Prop
  | .push owner vaultId snap =>
      ((pushSnapshotToBackend backendUrl s owner vaultId snap).2 = .suppressed →
        Archived s s.active owner vaultId) ∧
      ((pushSnapshotToBackend backendUrl s owner vaultId snap).2 = .sent →
        ¬ Archived s s.active owner vaultId)
  | _ => True

/-- Where a withdrawn snapshot under the same key was pushed before, it was of
the same vault of the same contract, and has succeeded by now. Snapshots with
another status are not pushed of a vault that is archived. -/
def FreezeSafe (s : State) : Action → Prop
  | .push owner vaultId snap =>
      if snap.onChainStatus = some .withdrawn then
        ∀ patch ∈ s.patches, patch.request.snap.onChainStatus = some .withdrawn →
          frozenKey patch.request.owner patch.request.vaultId = frozenKey owner vaultId →
          patch.succeeded = some true ∧ patch.request.contractId = s.active ∧
            patch.request.owner = owner ∧ patch.request.vaultId = vaultId
      else ¬ Archived s s.active owner vaultId
  | _ => True

theorem push_noBackend (s : State) (owner vaultId : String) (snap : Snap) :
    pushSnapshotToBackend "" s owner vaultId snap = (s, .noBackend) := if_pos rfl

/-- A snapshot of a withdrawn vault whose key is registered is not sent,
whatever its other fields say. -/
theorem push_suppressed {backendUrl : String} (hBackend : backendUrl ≠ "") {s : State}
    {owner vaultId : String} {snap : Snap} (hWithdrawn : snap.onChainStatus = some .withdrawn)
    (hFrozen : frozenKey owner vaultId ∈ s.frozenSnapshots) :
    pushSnapshotToBackend backendUrl s owner vaultId snap = (s, .suppressed) := by
  unfold pushSnapshotToBackend
  rw [if_neg hBackend]
  exact if_pos ⟨hWithdrawn, hFrozen⟩

/-- A snapshot of a withdrawn vault whose key is new is sent, and its key is
registered before the request has ended. -/
theorem push_withdrawn {backendUrl : String} (hBackend : backendUrl ≠ "") {s : State}
    {owner vaultId : String} {snap : Snap} (hWithdrawn : snap.onChainStatus = some .withdrawn)
    (hNew : frozenKey owner vaultId ∉ s.frozenSnapshots) :
    pushSnapshotToBackend backendUrl s owner vaultId snap =
      ({ s with
          frozenSnapshots := frozenKey owner vaultId :: s.frozenSnapshots
          patches := s.patches ++ [⟨⟨owner, vaultId, s.active, snap⟩, none⟩] }, .sent) := by
  unfold pushSnapshotToBackend
  rw [if_neg hBackend]
  simp only [hWithdrawn, hNew, and_false, if_false, if_true]

/-- A snapshot of a vault that is not withdrawn is sent every time and registers
nothing. -/
theorem push_other {backendUrl : String} (hBackend : backendUrl ≠ "") {s : State}
    {owner vaultId : String} {snap : Snap} (hOther : snap.onChainStatus ≠ some .withdrawn) :
    pushSnapshotToBackend backendUrl s owner vaultId snap =
      ({ s with patches := s.patches ++ [⟨⟨owner, vaultId, s.active, snap⟩, none⟩] }, .sent) := by
  unfold pushSnapshotToBackend
  rw [if_neg hBackend]
  simp only [hOther, false_and, if_false]

/-- A withdrawn snapshot under the key. -/
def Registers (k : String) (patch : Patch) : Prop :=
  patch.request.snap.onChainStatus = some .withdrawn ∧
    frozenKey patch.request.owner patch.request.vaultId = k

instance (k : String) : DecidablePred (Registers k) := fun _ => inferInstanceAs (Decidable (_ ∧ _))

/-- The registry holds the keys of the withdrawn snapshots that were sent, and
under each of them a single one was sent. -/
def Registered (s : State) : Prop :=
  ∀ k, s.patches.countP (Registers k) = if k ∈ s.frozenSnapshots then 1 else 0

/-- A push keeps the registry in step with the requests: it registers a key
exactly when it sends a snapshot as withdrawn. -/
theorem registered_push {s : State} (h : Registered s) (backendUrl owner vaultId : String)
    (snap : Snap) : Registered (pushSnapshotToBackend backendUrl s owner vaultId snap).1 := by
  by_cases hBackend : backendUrl = ""
  · subst hBackend
    rw [push_noBackend]
    exact h
  by_cases hWithdrawn : snap.onChainStatus = some .withdrawn
  · by_cases hFrozen : frozenKey owner vaultId ∈ s.frozenSnapshots
    · rw [push_suppressed hBackend hWithdrawn hFrozen]
      exact h
    · rw [push_withdrawn hBackend hWithdrawn hFrozen]
      intro k
      simp only [List.countP_append, List.countP_singleton, h k, List.mem_cons]
      by_cases hKey : frozenKey owner vaultId = k
      · subst hKey
        simp [Registers, hWithdrawn, hFrozen]
      · simp [Registers, hKey, Ne.symm hKey]
  · rw [push_other hBackend hWithdrawn]
    intro k
    simp only [List.countP_append, List.countP_singleton, h k]
    simp [Registers, hWithdrawn]

/-- So does every step: the end of a request and a switch of the deployment do
not touch the registry. -/
theorem registered_step {s : State} (h : Registered s) (backendUrl : String) (a : Action) :
    Registered (step backendUrl s a).1 := by
  cases a with
  | push owner vaultId snap => exact registered_push h backendUrl owner vaultId snap
  | settle number succeeds =>
      simp only [step]
      split
      · exact h
      · next patch hPatch =>
          obtain ⟨hBound, hGet⟩ := List.getElem?_eq_some_iff.mp hPatch
          intro k
          rw [← h k]
          -- The outcome plays no part in what is registered.
          have hSame : ((s.patches.set number { patch with
              succeeded := patch.succeeded.or (some succeeds) }).map (·.request)) =
              s.patches.map (·.request) := by
            rw [List.map_set, ← hGet]
            apply List.ext_getElem?
            intro i
            grind
          have hCount := congrArg (List.countP fun request : PatchRequest =>
            decide (Registers k ⟨request, none⟩)) hSame
          rw [List.countP_map, List.countP_map] at hCount
          exact hCount
  | switchDeployment contractId => exact h

theorem registered_initial (active : String) : Registered (initial active) := fun _ => rfl

/-- The key of a snapshot that was sent as withdrawn is registered from then on.
-/
theorem mem_frozenSnapshots {s : State} (h : Registered s) {patch : Patch} {k : String}
    (hPatch : patch ∈ s.patches) (hRegisters : Registers k patch) : k ∈ s.frozenSnapshots := by
  by_contra hNew
  have hNone := h k
  rw [if_neg hNew, List.countP_eq_zero] at hNone
  exact hNone patch hPatch (decide_eq_true hRegisters)

/-- A registered key belongs to one request. -/
theorem registered_unique {s : State} (h : Registered s) {k : String}
    (hFrozen : k ∈ s.frozenSnapshots) :
    ∃ patch ∈ s.patches, Registers k patch ∧
      ∀ other ∈ s.patches, Registers k other → other = patch := by
  have hOne := h k
  rw [if_pos hFrozen, List.countP_eq_length_filter, List.length_eq_one_iff] at hOne
  obtain ⟨patch, hOnly⟩ := hOne
  have hMem : ∀ other, other ∈ s.patches ∧ Registers k other ↔ other = patch := by
    intro other
    rw [← List.mem_singleton, ← hOnly, List.mem_filter, decide_eq_true_iff]
  obtain ⟨hPatch, hRegisters⟩ := (hMem patch).mpr rfl
  exact ⟨patch, hPatch, hRegisters, fun other hOther hSame => (hMem other).mp ⟨hOther, hSame⟩⟩

/-- The registry is in order; without a backend nothing is ever sent. -/
def Orderly (backendUrl : String) (s : State) : Prop :=
  Registered s ∧ (backendUrl = "" → s.patches = [])

/-- Every step keeps the registry in order, and sends nothing if there is no
backend to send it to. -/
theorem orderly_step {backendUrl : String} {s : State} (h : Orderly backendUrl s) (a : Action) :
    Orderly backendUrl (step backendUrl s a).1 := by
  refine ⟨registered_step h.1 backendUrl a, ?_⟩
  rintro rfl
  have hNone : s.patches = [] := h.2 rfl
  cases a with
  | push owner vaultId snap =>
      show (pushSnapshotToBackend "" s owner vaultId snap).1.patches = []
      rw [push_noBackend]
      exact hNone
  | settle number succeeds =>
      simp only [step, hNone, List.getElem?_nil]
  | switchDeployment contractId => exact hNone

/-- One step freezes what it should exactly when it is safe. -/
theorem freezes_iff {backendUrl : String} {s : State} (h : Orderly backendUrl s) (a : Action) :
    Freezes backendUrl s a ↔ FreezeSafe s a := by
  cases a with
  | settle number succeeds => exact Iff.rfl
  | switchDeployment contractId => exact Iff.rfl
  | push owner vaultId snap =>
      unfold Freezes FreezeSafe
      simp only
      by_cases hBackend : backendUrl = ""
      · subst hBackend
        have hNone : s.patches = [] := h.2 rfl
        rw [push_noBackend]
        refine iff_of_true ⟨fun hSuppressed => (by cases hSuppressed), fun hSent => (by cases hSent)⟩ ?_
        split_ifs
        · rw [hNone]
          exact fun patch hPatch => absurd hPatch List.not_mem_nil
        · rintro ⟨patch, hPatch, -⟩
          rw [hNone] at hPatch
          exact absurd hPatch List.not_mem_nil
      by_cases hWithdrawn : snap.onChainStatus = some .withdrawn
      · rw [if_pos hWithdrawn]
        by_cases hFrozen : frozenKey owner vaultId ∈ s.frozenSnapshots
        · rw [push_suppressed hBackend hWithdrawn hFrozen]
          obtain ⟨patch, hPatch, hRegisters, hOnly⟩ := registered_unique h.1 hFrozen
          constructor
          · rintro ⟨hArchived, -⟩ other hOther hTerminal hKey
            obtain ⟨first, hFirst, hDone, hStatus, hSame⟩ := hArchived rfl
            have hFirstKey : Registers (frozenKey owner vaultId) first := by
              refine ⟨hStatus, ?_⟩
              rw [hSame.2.1, hSame.2.2]
            rw [hOnly other hOther ⟨hTerminal, hKey⟩, ← hOnly first hFirst hFirstKey]
            exact ⟨hDone, hSame⟩
          · intro hSafe
            refine ⟨fun _ => ?_, fun hSent => (by cases hSent)⟩
            obtain ⟨hDone, hSame⟩ := hSafe patch hPatch hRegisters.1 hRegisters.2
            exact ⟨patch, hPatch, hDone, hRegisters.1, hSame⟩
        · rw [push_withdrawn hBackend hWithdrawn hFrozen]
          refine iff_of_true ⟨fun hSuppressed => (by cases hSuppressed), fun _ => ?_⟩ ?_
          · rintro ⟨patch, hPatch, -, hStatus, -, rfl, rfl⟩
            exact hFrozen (mem_frozenSnapshots h.1 hPatch ⟨hStatus, rfl⟩)
          · intro patch hPatch hStatus hKey
            exact absurd (mem_frozenSnapshots h.1 hPatch ⟨hStatus, hKey⟩) hFrozen
      · rw [if_neg hWithdrawn, push_other hBackend hWithdrawn]
        exact ⟨fun hFreezes => hFreezes.2 rfl,
          fun hSafe => ⟨fun hSuppressed => (by cases hSuppressed), fun _ => hSafe⟩⟩

/-- Over a whole session, with requests of any number and outcome and switches
of the deployment between them, the registry does what it is for exactly when
every push is safe. -/
theorem archive_freeze_iff (backendUrl active : String) (as : List Action) :
    Along (step backendUrl) (Freezes backendUrl) (initial active) as ↔
      Along (step backendUrl) FreezeSafe (initial active) as :=
  along_congr (step backendUrl) (Orderly backendUrl) (fun _ a h => orderly_step h a)
    (fun _ a h => freezes_iff h a) ⟨registered_initial active, fun _ => rfl⟩ as

def withdrawnRow : Snapshot := ⟨"1", 0, 1700000000, "withdrawn"⟩

def liveRow : Snapshot := ⟨"1", 10, 1700000000, "live"⟩

/-- The vault of the same number on another contract. -/
def otherContract : List Action :=
  [ofListing "G" withdrawnRow, .settle 0 true, .switchDeployment "CB"]

def failedRequest : List Action := [ofListing "G" withdrawnRow, .settle 0 false]

def archivedVault : List Action := [ofListing "G" withdrawnRow, .settle 0 true]

/-- The registry knows no contract, does not wait for the outcome, and lets a
snapshot with another status pass. -/
theorem archive_freeze_fails :
    ¬ Along (step "https://b") (Freezes "https://b") (initial "CA")
      (otherContract ++ [ofListing "G" withdrawnRow]) ∧
    ¬ Along (step "https://b") (Freezes "https://b") (initial "CA")
      (failedRequest ++ [ofListing "G" withdrawnRow]) ∧
    ¬ Along (step "https://b") (Freezes "https://b") (initial "CA")
      (archivedVault ++ [ofListing "G" liveRow]) := by
  refine ⟨?_, ?_, ?_⟩
  · rw [along_append]
    rintro ⟨-, ⟨hSuppressed, -⟩, -⟩
    obtain ⟨patch, hPatch, -, -, hContract, -⟩ := hSuppressed (by decide)
    obtain rfl := List.mem_singleton.mp hPatch
    exact absurd hContract (by decide)
  · rw [along_append]
    rintro ⟨-, ⟨hSuppressed, -⟩, -⟩
    obtain ⟨patch, hPatch, hDone, -⟩ := hSuppressed (by decide)
    obtain rfl := List.mem_singleton.mp hPatch
    exact absurd hDone (by decide)
  · rw [along_append]
    rintro ⟨-, ⟨-, hSent⟩, -⟩
    exact hSent (by decide) ⟨_, List.mem_singleton.mpr rfl, rfl, rfl, rfl, rfl, rfl⟩

end SnapshotPush
