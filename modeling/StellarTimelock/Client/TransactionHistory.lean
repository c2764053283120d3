import StellarTimelock.Client.DeliveryOrder

/-! The histories of a vault and of a wallet: live events merged with rows that
are reconstructed from the backend. The history of a vault learns from a live
event whose metas to ask for, so a vault without one has no history at all. -/
namespace SorobanClient

open XlmVault Execution Transaction StableSort FloatingPoint

variable {Address : Type} {contract : Address}

/-- A row of a history: an event with its transaction and the text of its date. -/
structure VaultTransaction extends ParsedEvent where
  txId : String
  createdAt : IsoText
  deriving DecidableEq

/-- The row that stands in for a `create` event which is no longer delivered. -/
def archivedCreate (owner : String) (r : RemoteMeta) : VaultTransaction :=
  { txId := "meta:" ++ r.vaultId
    vaultId := r.vaultId
    ownerPublicKey := owner
    kind := .create
    amount := 0
    note := match shownName r.name with
      | some name => name ++ " · reconstructed from backend metadata"
      | none => "Reconstructed from backend metadata (on-chain event archived)"
    timestamp := parseIsoToUnix (r.createdAt.or r.updatedAt)
    createdAt := (r.createdAt.or r.updatedAt).getD (some 0) }

/-- Some delivered event is the `create` event of the vault. -/
def liveCreated (liveEvents : List VaultTransaction) (id : String) : Bool :=
  liveEvents.any fun e => e.kind = .create ∧ e.vaultId = id

def fetchArchivedCreateEvents (remoteMetas : String → Option (List RemoteMeta)) (owner : String)
    (liveEvents : List VaultTransaction) : List VaultTransaction :=
  (((remoteMetas owner).getD []).filter fun r => !liveCreated liveEvents r.vaultId).map
    (archivedCreate owner)

/-- The order of a history. -/
def newestFirst (a b : VaultTransaction) : Prop := b.timestamp ≤ a.timestamp

instance : DecidableRel newestFirst := fun a b =>
  inferInstanceAs (Decidable (b.timestamp ≤ a.timestamp))

/-- `all` is the answer of `fetchContractEvents`. -/
def vaultTransactions (remoteMetas : String → Option (List RemoteMeta))
    (all : List VaultTransaction) (id : String) : List VaultTransaction :=
  let live := all.filter fun t => t.vaultId = id
  let synth := match (live.head?.map (·.ownerPublicKey)).filter fun owner => owner ≠ "" with
    | some owner =>
        (fetchArchivedCreateEvents remoteMetas owner all).filter fun t => t.vaultId = id
    | none => []
  (live ++ synth).insertionSort newestFirst

def allTransactions (remoteMetas : String → Option (List RemoteMeta))
    (all : List VaultTransaction) (owner : String) : List VaultTransaction :=
  let live := all.filter fun t => t.ownerPublicKey = owner
  (live ++ fetchArchivedCreateEvents remoteMetas owner all).insertionSort newestFirst

instance : Std.Total newestFirst where
  total a b := Int.le_total b.timestamp a.timestamp

instance : IsTrans VaultTransaction newestFirst where
  trans _ _ _ hab hbc := Int.le_trans hbc hab

/-- The rows of a history that say that the vault was created. -/
def createRows (rows : List VaultTransaction) (id : String) : Nat :=
  (rows.filter fun t => t.vaultId = id).countP fun t => t.kind = .create

/-- The history of a vault is that of the wallet, restricted to it; both are in
order, and both say once that a known vault was created. -/
structure HistoriesAgree (metas : List RemoteMeta) (all vault wallet : List VaultTransaction)
    (id : String) : Prop where
  ordered : vault.Pairwise newestFirst ∧ wallet.Pairwise newestFirst
  same : vault.Perm (wallet.filter fun t => t.vaultId = id)
  once : (∃ t ∈ all, t.kind = .create ∧ t.vaultId = id) ∨ (∃ r ∈ metas, r.vaultId = id) →
    createRows vault id = 1 ∧ createRows wallet id = 1

section Merge

variable {remoteMetas : String → Option (List RemoteMeta)} {all : List VaultTransaction}
  {owner id : String}

theorem liveCreated_iff : liveCreated all id = true ↔
    ∃ t ∈ all, t.kind = .create ∧ t.vaultId = id := by
  simp [liveCreated]

/-- The part of the wallet's history that is about the vault. -/
theorem allTransactions_filter (hOwner : ∀ t ∈ all, t.vaultId = id → t.ownerPublicKey = owner) :
    ((allTransactions remoteMetas all owner).filter fun t => t.vaultId = id) =
      ((all.filter fun t => t.vaultId = id) ++
        (fetchArchivedCreateEvents remoteMetas owner all).filter fun t =>
          t.vaultId = id).insertionSort newestFirst := by
  have hLive : ((all.filter fun t => t.ownerPublicKey = owner).filter fun t => t.vaultId = id) =
      all.filter fun t => t.vaultId = id := by
    rw [List.filter_comm]
    apply List.filter_eq_self.mpr
    intro t ht
    obtain ⟨hMem, hId⟩ := List.mem_filter.mp ht
    exact decide_eq_true (hOwner t hMem (of_decide_eq_true hId))
  unfold allTransactions
  rw [filter_insertionSort, List.filter_append, hLive]

/-- With a live event the two methods show the same rows of the vault. -/
theorem vaultTransactions_of_live (hText : owner ≠ "")
    (hOwner : ∀ t ∈ all, t.vaultId = id → t.ownerPublicKey = owner)
    (hLive : ∃ t ∈ all, t.vaultId = id) : vaultTransactions remoteMetas all id =
      (allTransactions remoteMetas all owner).filter fun t => t.vaultId = id := by
  rw [allTransactions_filter hOwner]
  have hHead : ((all.filter fun t => t.vaultId = id).head?.map (·.ownerPublicKey)).filter
      (fun owner => owner ≠ "") = some owner := by
    cases hFilter : all.filter fun t => t.vaultId = id with
    | nil =>
        obtain ⟨t, ht, hId⟩ := hLive
        rw [List.filter_eq_nil_iff] at hFilter
        exact absurd (decide_eq_true hId) (hFilter t ht)
    | cons t rest =>
        have hMem : t ∈ all.filter fun t => t.vaultId = id := by
          rw [hFilter]
          exact List.mem_cons_self
        obtain ⟨ht, hId⟩ := List.mem_filter.mp hMem
        rw [List.head?_cons, Option.map_some, hOwner t ht (of_decide_eq_true hId)]
        simp [hText]
  unfold vaultTransactions
  simp only [hHead]

theorem filter_eq_nil_of_silent (h : ¬ ∃ t ∈ all, t.vaultId = id) :
    (all.filter fun t => t.vaultId = id) = [] := by
  rw [List.filter_eq_nil_iff]
  intro t ht hId
  exact h ⟨t, ht, of_decide_eq_true hId⟩

/-- Without a live event the history of a vault is empty. -/
theorem vaultTransactions_of_silent (h : ¬ ∃ t ∈ all, t.vaultId = id) :
    vaultTransactions remoteMetas all id = [] := by
  unfold vaultTransactions
  simp only [filter_eq_nil_of_silent h]
  rfl

/-- The reconstructed rows of a vault: none if its `create` event is delivered,
else one for each backend row. -/
theorem fetchArchivedCreateEvents_filter :
    ((fetchArchivedCreateEvents remoteMetas owner all).filter fun t => t.vaultId = id) =
      if liveCreated all id then []
      else (((remoteMetas owner).getD []).filter fun r => r.vaultId = id).map
        (archivedCreate owner) := by
  have hTest : ((fun t : VaultTransaction => decide (t.vaultId = id)) ∘ archivedCreate owner) =
      fun r : RemoteMeta => decide (r.vaultId = id) := rfl
  unfold fetchArchivedCreateEvents
  rw [List.filter_map, hTest, List.filter_comm]
  split_ifs with hCreated
  · rw [List.map_eq_nil_iff, List.filter_eq_nil_iff]
    intro r hr
    rw [of_decide_eq_true (List.mem_filter.mp hr).2, hCreated]
    simp
  · congr 1
    apply List.filter_eq_self.mpr
    intro r hr
    rw [of_decide_eq_true (List.mem_filter.mp hr).2]
    simpa using hCreated

theorem createRows_allTransactions
    (hOwner : ∀ t ∈ all, t.vaultId = id → t.ownerPublicKey = owner) :
    createRows (allTransactions remoteMetas all owner) id = createRows all id +
      if liveCreated all id then 0
      else (((remoteMetas owner).getD []).filter fun r => r.vaultId = id).length := by
  unfold createRows
  rw [allTransactions_filter hOwner, (List.perm_insertionSort _ _).countP_eq, List.countP_append,
    fetchArchivedCreateEvents_filter]
  congr 1
  split_ifs
  · rfl
  · rw [List.countP_map, List.countP_eq_length.mpr]
    intro r _
    rfl

/-- A delivered stream has a `create` event of a vault or none. -/
theorem createRows_eq (hOnce : createRows all id ≤ 1) :
    createRows all id = if liveCreated all id then 1 else 0 := by
  split_ifs with hCreated
  · obtain ⟨t, ht, hKind, hId⟩ := liveCreated_iff.mp hCreated
    have hPos : 0 < createRows all id := by
      unfold createRows
      rw [List.countP_pos_iff]
      exact ⟨t, List.mem_filter.mpr ⟨ht, decide_eq_true hId⟩, decide_eq_true hKind⟩
    omega
  · unfold createRows
    rw [List.countP_eq_zero]
    intro t ht hKind
    obtain ⟨hMem, hId⟩ := List.mem_filter.mp ht
    exact hCreated (liveCreated_iff.mpr
      ⟨t, hMem, of_decide_eq_true hKind, of_decide_eq_true hId⟩)

theorem metas_filter_length {metas : List RemoteMeta} (h : (metas.map (·.vaultId)).Nodup)
    (hMem : ∃ r ∈ metas, r.vaultId = id) :
    (metas.filter fun r => r.vaultId = id).length = 1 := by
  have hCount : (metas.map (·.vaultId)).count id =
      (metas.filter fun r => r.vaultId = id).length := by
    rw [List.count_eq_countP, List.countP_map, List.countP_eq_length_filter]
    rfl
  rw [← hCount]
  exact List.count_eq_one_of_mem h (List.mem_map.mpr hMem)

/-- With distinct backend rows the wallet's history says once that a known
vault was created. -/
theorem createRows_allTransactions_known
    (hOwner : ∀ t ∈ all, t.vaultId = id → t.ownerPublicKey = owner)
    (hOnce : createRows all id ≤ 1)
    (hMetas : (((remoteMetas owner).getD []).map (·.vaultId)).Nodup)
    (hKnown : (∃ t ∈ all, t.kind = .create ∧ t.vaultId = id) ∨
      ∃ r ∈ (remoteMetas owner).getD [], r.vaultId = id) :
    createRows (allTransactions remoteMetas all owner) id = 1 := by
  rw [createRows_allTransactions hOwner, createRows_eq hOnce]
  split_ifs with hCreated
  · rfl
  · rcases hKnown with hEvent | hMeta
    · exact absurd (liveCreated_iff.mpr hEvent) hCreated
    · rw [metas_filter_length hMetas hMeta]

/-- Whatever part of the stream is delivered, the two histories agree on a vault
of the owner if and only if some event of the vault is delivered, or the backend
has no row for it. -/
theorem historiesAgree_iff (hText : owner ≠ "")
    (hOwner : ∀ t ∈ all, t.vaultId = id → t.ownerPublicKey = owner)
    (hOnce : createRows all id ≤ 1)
    (hMetas : (((remoteMetas owner).getD []).map (·.vaultId)).Nodup) :
    HistoriesAgree ((remoteMetas owner).getD []) all (vaultTransactions remoteMetas all id)
        (allTransactions remoteMetas all owner) id ↔
      (∃ t ∈ all, t.vaultId = id) ∨ ∀ r ∈ (remoteMetas owner).getD [], r.vaultId ≠ id := by
  have hOrdered : (vaultTransactions remoteMetas all id).Pairwise newestFirst ∧
      (allTransactions remoteMetas all owner).Pairwise newestFirst :=
    ⟨List.pairwise_insertionSort _ _, List.pairwise_insertionSort _ _⟩
  constructor
  · intro hAgree
    by_contra hNot
    push Not at hNot
    obtain ⟨hSilent, r, hr, hId⟩ := hNot
    -- The row of the backend is in the wallet's history only.
    have hEmpty :
        ((allTransactions remoteMetas all owner).filter fun t => t.vaultId = id) = [] := by
      have hSame := hAgree.same
      rw [vaultTransactions_of_silent (by
        rintro ⟨t, ht, hEvent⟩
        exact hSilent t ht hEvent)] at hSame
      exact hSame.nil_eq.symm
    have hRow := createRows_allTransactions_known hOwner hOnce hMetas (Or.inr ⟨r, hr, hId⟩)
    unfold createRows at hRow
    rw [hEmpty] at hRow
    cases hRow
  · intro hCondition
    have hSame : vaultTransactions remoteMetas all id =
        (allTransactions remoteMetas all owner).filter fun t => t.vaultId = id := by
      by_cases hLive : ∃ t ∈ all, t.vaultId = id
      · exact vaultTransactions_of_live hText hOwner hLive
      · have hNone := hCondition.resolve_left hLive
        have hMetaNone : (((remoteMetas owner).getD []).filter fun r => r.vaultId = id) = [] := by
          rw [List.filter_eq_nil_iff]
          intro r hr hId
          exact hNone r hr (of_decide_eq_true hId)
        rw [vaultTransactions_of_silent hLive, allTransactions_filter hOwner,
          filter_eq_nil_of_silent hLive, fetchArchivedCreateEvents_filter, hMetaNone]
        split_ifs <;> rfl
    refine ⟨hOrdered, by rw [hSame], fun hKnown => ?_⟩
    have hRow := createRows_allTransactions_known hOwner hOnce hMetas hKnown
    refine ⟨?_, hRow⟩
    unfold createRows at hRow ⊢
    rw [hSame, List.filter_filter]
    simpa using hRow

end Merge

/-! Streams of a run, of which the window delivers any part in any order. -/

/-- What is delivered of the events of a run. -/
def Delivers (all : List VaultTransaction) (events : List ParsedEvent) : Prop :=
  (all.map (·.toParsedEvent)).Subperm events

section Delivered

variable {key : StrKey Address} {past : List (Observation contract)} {w : World Address}
  {events : List ParsedEvent} {all : List VaultTransaction}

/-- Every delivered event of a stored vault names its owner. -/
theorem Attributed.delivered [Arithmetic] (h : Attributed key past w)
    (hEvents : parseEvents key (emitted past) = .ok events) (hWindow : Delivers all events)
    {k : UInt64} {v : XlmVault.Vault Address} (hVault : w.storage.vault k = some v) :
    ∀ t ∈ all, t.vaultId = idText k → t.ownerPublicKey = key.encode v.owner := by
  intro t ht hId
  have hMem : t.toParsedEvent ∈ events := hWindow.subset (List.mem_map_of_mem ht)
  exact h.owner hEvents hMem hVault hId

/-- A vault is created once, so its `create` event is delivered at most once. -/
theorem Chronicled.delivered [Arithmetic] (h : Chronicled key past w)
    (hEvents : parseEvents key (emitted past) = .ok events) (hWindow : Delivers all events)
    {k : UInt64} {v : XlmVault.Vault Address} (hVault : w.storage.vault k = some v) :
    createRows all (idText k) ≤ 1 := by
  obtain ⟨c, rest, hFilter, -, -, hRest, -⟩ := h events hEvents k v hVault
  have hSub := (hWindow.filter fun e => e.vaultId = idText k).countP_le fun e => e.kind = .create
  have hOne : (c :: rest).countP (fun e => e.kind = .create) ≤ 1 := by
    have hNone : rest.countP (fun e => e.kind = .create) = 0 := by
      rw [List.countP_eq_zero]
      intro e he hKind
      exact (hRest e he).kind (of_decide_eq_true hKind)
    rw [List.countP_cons, hNone]
    split_ifs <;> omega
  rw [hFilter, List.filter_map, List.countP_map] at hSub
  exact hSub.trans hOne

end Delivered

variable [DecidableEq Address]

/-- After every run whose events parse, for every part of its stream that is
delivered and all backend rows of distinct vaults, the two histories agree on a
vault of the owner if and only if some event of the vault is delivered, or the
backend has no row for it. -/
theorem histories_agree_iff [Arithmetic] (key : StrKey Address) (g : Genesis contract)
    (as : List (Action contract)) {events : List ParsedEvent}
    (hEvents : parseEvents key (emitted (trace (step contract) g.world as)) = .ok events)
    {all : List VaultTransaction} (hWindow : Delivers all events)
    (remoteMetas : String → Option (List RemoteMeta)) {k : UInt64}
    {v : XlmVault.Vault Address}
    (hVault : (final (step contract) g.world as).storage.vault k = some v)
    (hText : key.encode v.owner ≠ "")
    (hMetas : (((remoteMetas (key.encode v.owner)).getD []).map (·.vaultId)).Nodup) :
    HistoriesAgree ((remoteMetas (key.encode v.owner)).getD []) all
        (vaultTransactions remoteMetas all (idText k))
        (allTransactions remoteMetas all (key.encode v.owner)) (idText k) ↔
      (∃ t ∈ all, t.vaultId = idText k) ∨
        ∀ r ∈ (remoteMetas (key.encode v.owner)).getD [], r.vaultId ≠ idText k :=
  historiesAgree_iff hText
    ((Streamed.reachable key g as).attributed.delivered hEvents hWindow hVault)
    ((Chronicled.reachable key g as).delivered hEvents hWindow hVault) hMetas

section Sample

attribute [local instance] Arithmetic.double

/-- The noon vault's `create` event as a row. -/
def noonTransaction : VaultTransaction := ⟨noonEvent, "c0ffee", some 1767200000000⟩

/-- A window that reaches that event. -/
theorem histories_agree_noon :
    HistoriesAgree [noonMeta] [noonTransaction]
      (vaultTransactions (fun _ => some [noonMeta]) [noonTransaction] "0")
      (allTransactions (fun _ => some [noonMeta]) [noonTransaction] "7") "0" := by
  have hVault : (final (step (0 : Nat)) sampleGenesis.world noonRun).storage.vault 0 =
      some ⟨0, 7, "Rent", ⟨700, by decide, by decide⟩, 1767268800, 1767200000, false⟩ := rfl
  have hWindow : Delivers [noonTransaction] [noonEvent] := List.Subperm.refl _
  exact (histories_agree_iff numbered sampleGenesis noonRun parse_noonRun hWindow
    (fun _ => some [noonMeta]) hVault (by decide) (List.nodup_singleton _)).mpr
      (Or.inl ⟨_, List.mem_singleton.mpr rfl, rfl⟩)

/-- Once all events of the noon vault have aged out, the wallet's history still
says that it was created; the vault's own history is empty. -/
theorem aged_out_history :
    parseEvents numbered (emitted (trace (step (0 : Nat)) sampleGenesis.world noonRun)) =
      .ok [noonEvent] ∧
    Delivers [] [noonEvent] ∧
    ((final (step (0 : Nat)) sampleGenesis.world noonRun).storage.vault 0).map (·.owner) = some 7 ∧
    vaultTransactions (fun _ => some [noonMeta]) [] "0" = [] ∧
    (allTransactions (fun _ => some [noonMeta]) [] "7").map (fun t => (t.txId, t.kind)) =
      [("meta:0", .create)] ∧
    ¬ HistoriesAgree [noonMeta] [] (vaultTransactions (fun _ => some [noonMeta]) [] "0")
      (allTransactions (fun _ => some [noonMeta]) [] "7") "0" := by
  refine ⟨parse_noonRun, List.nil_subperm, rfl, rfl, rfl, ?_⟩
  intro hAgree
  have hOnce := (hAgree.once (Or.inr ⟨noonMeta, List.mem_singleton.mpr rfl, rfl⟩)).1
  exact absurd hOnce (by decide)

end Sample

end SorobanClient
