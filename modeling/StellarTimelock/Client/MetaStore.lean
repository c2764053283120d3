import StellarTimelock.Client.Replay

/-! The device's metadata store and its two readers of the backend: the bulk
hydration, which writes where it takes the local record for missing, and
`getVaultMeta`, which merges. What each of them can erase, and when the order of
their calls does not matter. -/
namespace SorobanClient

/-- The optional fields of a record that the rows of the list do not show. -/
structure ExtraFields where
  withdrawalDestination : Option String := none
  withdrawalDestinationLabel : Option String := none
  withdrawalMemo : Option String := none
  billId : Option String := none
  deriving DecidableEq

/-- The record of a vault on the device, with all its fields. -/
structure StoredMeta extends VaultMeta, ExtraFields
  deriving DecidableEq

/-- A row of the backend, with all the fields that are hydrated. -/
structure MetaRow extends RemoteMeta, ExtraFields
  deriving DecidableEq

/-- `EMPTY_META`. -/
def emptyStored : StoredMeta := { emptyMeta with }

/-- What hydration writes for a row: every field as the row has it. -/
def MetaRow.record (r : MetaRow) : StoredMeta where
  description := r.description
  template := r.template
  targetAmount := r.targetAmount
  name := r.name
  toExtraFields := r.toExtraFields

/-- The key-value store of the device. Its reads and writes succeed. -/
abbrev MetaStore := String → Option StoredMeta

def metaKey (owner vaultId : String) : String :=
  "xlm_vault_soroban_meta:" ++ owner ++ ":" ++ vaultId

def loadMeta (store : MetaStore) (owner vaultId : String) : StoredMeta :=
  (store (metaKey owner vaultId)).getD emptyStored

def saveMetaLocal (store : MetaStore) (owner vaultId : String) (record : StoredMeta) : MetaStore :=
  Function.update store (metaKey owner vaultId) (some record)

/-- How a request for the rows of an owner ends. -/
inductive BackendReply where
  /-- No backend is configured. -/
  | unset
  /-- `res.ok` is false. -/
  | refused
  /-- The request or the reading of its body throws. -/
  | thrown
  | rows (remotes : List MetaRow)

/-- The rows that a reply brings. -/
def BackendReply.remotes : BackendReply → List MetaRow
  | .rows remotes => remotes
  | .unset => []
  | .refused => []
  | .thrown => []

/-- The test of the hydration looks at three of the fields. -/
def isMissing (record : StoredMeta) : Bool :=
  record.description = "" ∧ record.template = "custom" ∧ record.targetAmount = none

/-- The store after a hydration, and the number of records it wrote. All reads
come before all writes; rows of one vault are written in their order. -/
def hydrateMetaImpl (store : MetaStore) (reply : BackendReply) (owner : String) (force : Bool) :
    MetaStore × Nat :=
  match reply with
  | .rows remotes =>
      let written := remotes.filter fun r => force || isMissing (loadMeta store owner r.vaultId)
      (written.foldl (fun s r => saveMetaLocal s owner r.vaultId r.record) store, written.length)
  | .unset => (store, 0)
  | .refused => (store, 0)
  | .thrown => (store, 0)

def hydrateMetaFromBackend (store : MetaStore) (reply : BackendReply) (owner : String) :
    MetaStore :=
  (hydrateMetaImpl store reply owner false).1

/-- `a || b` of two texts. -/
def orText (a b : String) : String := if a ≠ "" then a else b

/-- The record that `getVaultMeta` makes of the local one and a backend row. -/
def StoredMeta.merge (here : StoredMeta) (hit : MetaRow) : StoredMeta where
  description := orText here.description hit.description
  template := orText here.template hit.template
  targetAmount := here.targetAmount.or hit.targetAmount
  name := here.name.or hit.name
  toExtraFields := hit.toExtraFields

/-- The store after a call, and what the call returns. -/
def getVaultMeta (store : MetaStore) (reply : BackendReply) (owner vaultId : String) :
    MetaStore × Option StoredMeta :=
  let here := loadMeta store owner vaultId
  if here.withdrawalDestination.any (· ≠ "") then (store, some here)
  else
    match reply with
    | .unset => (store, some here)
    | .refused => (store, some here)
    | .thrown => (store, none)
    | .rows remotes =>
        match remotes.find? fun r => r.vaultId = vaultId with
        | none => (store, some here)
        | some hit =>
            (saveMetaLocal store owner vaultId (here.merge hit), some (here.merge hit))

/-- Two vaults of one owner never share a key of the device's store, as the id
is the end of the key. -/
theorem metaKey_injective (owner : String) : Function.Injective (metaKey owner) := by
  intro a b h
  exact (String.append_right_inj _).mp h

/-- What has been saved for a vault is what is loaded for it next. -/
@[simp] theorem loadMeta_saveMetaLocal (store : MetaStore) (owner vaultId : String)
    (record : StoredMeta) :
    loadMeta (saveMetaLocal store owner vaultId record) owner vaultId = record := by
  simp [loadMeta, saveMetaLocal]

/-- The row of a vault that is written last. -/
def lastRow (remotes : List MetaRow) (vaultId : String) : Option MetaRow :=
  remotes.reverse.find? fun r => r.vaultId = vaultId

/-- When the rows of an answer are saved one after another, the last row of a
vault is what remains of it. A vault without a row keeps its record. -/
theorem loadMeta_foldl_save (rows : List MetaRow) (store : MetaStore) (owner vaultId : String) :
    loadMeta (rows.foldl (fun s r => saveMetaLocal s owner r.vaultId r.record) store) owner
        vaultId =
      ((lastRow rows vaultId).map (·.record)).getD (loadMeta store owner vaultId) := by
  induction rows using List.reverseRecOn with
  | nil => rfl
  | append_singleton rows r ih =>
      unfold lastRow at ih ⊢
      rw [List.foldl_append, List.reverse_append, List.reverse_singleton, List.singleton_append]
      by_cases hOwn : r.vaultId = vaultId
      · rw [List.find?_cons_of_pos (by simpa using hOwn), ← hOwn, List.foldl_cons, List.foldl_nil,
          loadMeta_saveMetaLocal]
        rfl
      · have hKey : metaKey owner vaultId ≠ metaKey owner r.vaultId :=
          fun hSame => hOwn (metaKey_injective owner hSame).symm
        rw [List.find?_cons_of_neg (by simpa using hOwn), ← ih, List.foldl_cons, List.foldl_nil]
        unfold loadMeta saveMetaLocal
        rw [Function.update_of_ne hKey]

/-- Rows selected by their vault are all there or none is. -/
theorem lastRow_filter (p : String → Bool) (rows : List MetaRow) (vaultId : String) :
    lastRow (rows.filter fun r => p r.vaultId) vaultId =
      if p vaultId then lastRow rows vaultId else none := by
  unfold lastRow
  rw [← List.filter_reverse, List.find?_filter]
  split_ifs with hSelected
  · congr 1
    funext r
    by_cases hOwn : r.vaultId = vaultId
    · simp [hOwn, hSelected]
    · simp [hOwn]
  · rw [List.find?_eq_none]
    intro r _
    by_cases hOwn : r.vaultId = vaultId
    · simp [hOwn, hSelected]
    · simp [hOwn]

/-- A hydration writes the record of a vault exactly if it takes it for
missing, and then it writes the row. -/
theorem loadMeta_hydrate (store : MetaStore) (reply : BackendReply) (owner vaultId : String) :
    loadMeta (hydrateMetaFromBackend store reply owner) owner vaultId =
      if isMissing (loadMeta store owner vaultId) then
        ((lastRow reply.remotes vaultId).map (·.record)).getD (loadMeta store owner vaultId)
      else loadMeta store owner vaultId := by
  unfold hydrateMetaFromBackend hydrateMetaImpl BackendReply.remotes
  cases reply with
  | rows remotes =>
      simp only [Bool.false_or]
      rw [loadMeta_foldl_save,
        lastRow_filter fun vaultId => isMissing (loadMeta store owner vaultId)]
      split_ifs <;> rfl
  | unset => split_ifs <;> rfl
  | refused => split_ifs <;> rfl
  | thrown => split_ifs <;> rfl

/-- `getVaultMeta` writes unless the record names a destination or the backend
has no row. -/
theorem loadMeta_getVaultMeta (store : MetaStore) (reply : BackendReply) (owner vaultId : String) :
    loadMeta (getVaultMeta store reply owner vaultId).1 owner vaultId =
      if (loadMeta store owner vaultId).withdrawalDestination.any (· ≠ "") then
        loadMeta store owner vaultId
      else ((reply.remotes.find? fun r => r.vaultId = vaultId).map
        (loadMeta store owner vaultId).merge).getD (loadMeta store owner vaultId) := by
  unfold getVaultMeta BackendReply.remotes
  simp only
  split_ifs
  · rfl
  · cases reply with
    | rows remotes =>
        simp only
        cases remotes.find? fun r => r.vaultId = vaultId with
        | none => rfl
        | some hit => exact loadMeta_saveMetaLocal store owner vaultId _
    | unset => rfl
    | refused => rfl
    | thrown => rfl

/-- Every value of a record is still there. -/
structure Keeps (before after : StoredMeta) : Prop where
  description : before.description ≠ "" → after.description = before.description
  template : before.template ≠ "custom" → after.template = before.template
  targetAmount : before.targetAmount ≠ none → after.targetAmount = before.targetAmount
  name : before.name ≠ none → after.name = before.name
  withdrawalDestination : before.withdrawalDestination ≠ none →
    after.withdrawalDestination = before.withdrawalDestination
  withdrawalDestinationLabel : before.withdrawalDestinationLabel ≠ none →
    after.withdrawalDestinationLabel = before.withdrawalDestinationLabel
  withdrawalMemo : before.withdrawalMemo ≠ none → after.withdrawalMemo = before.withdrawalMemo
  billId : before.billId ≠ none → after.billId = before.billId

theorem Keeps.refl (record : StoredMeta) : Keeps record record :=
  ⟨fun _ => rfl, fun _ => rfl, fun _ => rfl, fun _ => rfl, fun _ => rfl, fun _ => rfl, fun _ => rfl,
    fun _ => rfl⟩

/-- A row has every optional field that a record has. -/
structure Repeats (r : MetaRow) (record : ExtraFields) : Prop where
  withdrawalDestination : record.withdrawalDestination ≠ none →
    r.withdrawalDestination = record.withdrawalDestination
  withdrawalDestinationLabel : record.withdrawalDestinationLabel ≠ none →
    r.withdrawalDestinationLabel = record.withdrawalDestinationLabel
  withdrawalMemo : record.withdrawalMemo ≠ none → r.withdrawalMemo = record.withdrawalMemo
  billId : record.billId ≠ none → r.billId = record.billId

/-- A row written over a record that is taken for missing keeps what the record
says if and only if it repeats its name and its optional fields. -/
theorem keeps_record_iff {record : StoredMeta} (h : isMissing record = true) (r : MetaRow) :
    Keeps record r.record ↔
      (record.name ≠ none → r.name = record.name) ∧ Repeats r record.toExtraFields := by
  obtain ⟨hDescription, hTemplate, hTarget⟩ := of_decide_eq_true h
  constructor
  · intro hKeeps
    exact ⟨hKeeps.name, hKeeps.withdrawalDestination, hKeeps.withdrawalDestinationLabel,
      hKeeps.withdrawalMemo, hKeeps.billId⟩
  · rintro ⟨hName, hRepeats⟩
    exact ⟨fun hSome => absurd hDescription hSome, fun hSome => absurd hTemplate hSome,
      fun hSome => absurd hTarget hSome, hName, hRepeats.withdrawalDestination,
      hRepeats.withdrawalDestinationLabel, hRepeats.withdrawalMemo, hRepeats.billId⟩

theorem orText_of_ne {a : String} (h : a ≠ "") (b : String) : orText a b = a := if_pos h

@[simp] theorem orText_empty (b : String) : orText "" b = b := rfl

/-- A row that is merged into a record keeps all that the record says if and
only if it repeats the optional fields, and does not fill an empty template. -/
theorem keeps_merge_iff (record : StoredMeta) (hit : MetaRow) : Keeps record (record.merge hit) ↔
    (record.template = "" → hit.template = "") ∧ Repeats hit record.toExtraFields := by
  constructor
  · intro hKeeps
    refine ⟨fun hEmpty => ?_, hKeeps.withdrawalDestination, hKeeps.withdrawalDestinationLabel,
      hKeeps.withdrawalMemo, hKeeps.billId⟩
    have hTemplate := hKeeps.template (by rw [hEmpty]; decide)
    unfold StoredMeta.merge at hTemplate
    rw [hEmpty] at hTemplate
    exact hTemplate
  · rintro ⟨hEmpty, hRepeats⟩
    refine ⟨fun hSome => orText_of_ne hSome _, fun _ => ?_,
      fun hSome => Option.or_of_isSome (Option.isSome_iff_ne_none.mpr hSome),
      fun hSome => Option.or_of_isSome (Option.isSome_iff_ne_none.mpr hSome),
      hRepeats.withdrawalDestination, hRepeats.withdrawalDestinationLabel,
      hRepeats.withdrawalMemo, hRepeats.billId⟩
    by_cases hText : record.template = ""
    · unfold StoredMeta.merge
      simp only [hText, orText_empty]
      exact hEmpty hText
    · exact orText_of_ne hText _

/-- A hydration keeps every value of a vault's record if and only if the record
is not taken for missing or the row that is written repeats its name and its
optional fields; `getVaultMeta` keeps them if and only if it returns at a stored
destination or the row repeats the optional fields, and an empty template. -/
theorem reads_keep_iff (store : MetaStore) (active full : BackendReply) (owner vaultId : String) :
    let before := loadMeta store owner vaultId
    (Keeps before (loadMeta (hydrateMetaFromBackend store active owner) owner vaultId) ↔
      ∀ r, lastRow active.remotes vaultId = some r → isMissing before = true →
        (before.name ≠ none → r.name = before.name) ∧ Repeats r before.toExtraFields) ∧
    (Keeps before (loadMeta (getVaultMeta store full owner vaultId).1 owner vaultId) ↔
      ∀ hit, (full.remotes.find? fun r => r.vaultId = vaultId) = some hit →
        ¬ before.withdrawalDestination.any (· ≠ "") = true →
          (before.template = "" → hit.template = "") ∧ Repeats hit before.toExtraFields) := by
  intro before
  constructor
  · rw [loadMeta_hydrate]
    by_cases hMissing : isMissing before = true
    · rw [if_pos hMissing]
      cases lastRow active.remotes vaultId with
      | none => exact iff_of_true (Keeps.refl before) (fun r h => by cases h)
      | some r =>
          rw [Option.map_some, Option.getD_some, keeps_record_iff hMissing]
          simp [hMissing]
    · rw [if_neg hMissing]
      exact iff_of_true (Keeps.refl before) (fun r _ h => absurd h hMissing)
  · rw [loadMeta_getVaultMeta]
    by_cases hStops : before.withdrawalDestination.any (· ≠ "") = true
    · rw [if_pos hStops]
      exact iff_of_true (Keeps.refl before) (fun hit _ h => absurd hStops h)
    · rw [if_neg hStops]
      cases full.remotes.find? fun r => r.vaultId = vaultId with
      | none => exact iff_of_true (Keeps.refl before) (fun hit h => by cases h)
      | some hit =>
          rw [Option.map_some, Option.getD_some, keeps_merge_iff]
          constructor
          · intro h other hSome _
            cases hSome
            exact h
          · intro h
            exact h hit rfl hStops

/-- A row of a vault of which the backend has only heard from a snapshot. -/
def snapshotRow : MetaRow where
  vaultId := "0"
  description := ""
  template := "custom"

/-- The record of a vault with a name and a deposit memo. -/
def memoRecord : StoredMeta where
  description := ""
  template := "custom"
  targetAmount := none
  name := some "Rent"
  withdrawalMemo := some "4711"

/-- The hydration erases the name and the memo, `getVaultMeta` the memo. -/
theorem snapshotRow_erases :
    let store := saveMetaLocal (fun _ => none) "7" "0" memoRecord
    loadMeta (hydrateMetaFromBackend store (.rows [snapshotRow]) "7") "7" "0" = emptyStored ∧
    loadMeta (getVaultMeta store (.rows [snapshotRow]) "7" "0").1 "7" "0" =
      { emptyStored with name := some "Rent" } ∧
    ¬ Keeps (loadMeta store "7" "0")
      (loadMeta (hydrateMetaFromBackend store (.rows [snapshotRow]) "7") "7" "0") ∧
    ¬ Keeps (loadMeta store "7" "0")
      (loadMeta (getVaultMeta store (.rows [snapshotRow]) "7" "0").1 "7" "0") := by
  intro store
  have hRecord : loadMeta store "7" "0" = memoRecord := loadMeta_saveMetaLocal _ _ _ _
  have hHydrated : loadMeta (hydrateMetaFromBackend store (.rows [snapshotRow]) "7") "7" "0" =
      emptyStored := by
    rw [loadMeta_hydrate, hRecord]
    rfl
  have hMerged : loadMeta (getVaultMeta store (.rows [snapshotRow]) "7" "0").1 "7" "0" =
      { emptyStored with name := some "Rent" } := by
    rw [loadMeta_getVaultMeta, hRecord]
    rfl
  refine ⟨hHydrated, hMerged, ?_, ?_⟩
  · rw [hHydrated, hRecord]
    intro hKeeps
    exact absurd (hKeeps.withdrawalMemo (by decide)) (by decide)
  · rw [hMerged, hRecord]
    intro hKeeps
    exact absurd (hKeeps.withdrawalMemo (by decide)) (by decide)

/-- A completed read, with the reply it got. -/
inductive MetaCall where
  | hydrateMetaFromBackend (reply : BackendReply)
  | getVaultMeta (reply : BackendReply)

def MetaCall.reply : MetaCall → BackendReply
  | .hydrateMetaFromBackend reply => reply
  | .getVaultMeta reply => reply

def MetaCall.hydrates : MetaCall → Bool
  | .hydrateMetaFromBackend _ => true
  | .getVaultMeta _ => false

def MetaCall.run (owner vaultId : String) (store : MetaStore) : MetaCall → MetaStore
  | .hydrateMetaFromBackend reply => SorobanClient.hydrateMetaFromBackend store reply owner
  | .getVaultMeta reply => (SorobanClient.getVaultMeta store reply owner vaultId).1

/-- The store after completed calls, the first one first. -/
def runCalls (owner vaultId : String) (store : MetaStore) (calls : List MetaCall) : MetaStore :=
  calls.foldl (MetaCall.run owner vaultId) store

/-- The reply has this row of the vault and no other. -/
structure Brings (reply : BackendReply) (r : MetaRow) : Prop where
  found : r ∈ reply.remotes
  only : ∀ q ∈ reply.remotes, q.vaultId = r.vaultId → q = r

/-- The search of a list of rows by id finds the row if no other row of the list
has its id. -/
theorem find?_of_only {rows : List MetaRow} {r : MetaRow} (hFound : r ∈ rows)
    (hOnly : ∀ q ∈ rows, q.vaultId = r.vaultId → q = r) :
    (rows.find? fun q => q.vaultId = r.vaultId) = some r := by
  have hSome : (rows.find? fun q => q.vaultId = r.vaultId).isSome = true :=
    List.find?_isSome.mpr ⟨r, hFound, decide_eq_true rfl⟩
  obtain ⟨q, hq⟩ := Option.isSome_iff_exists.mp hSome
  rw [hq, hOnly q (List.mem_of_find?_eq_some hq) (by simpa using List.find?_some hq)]

/-- What one read makes of the record of the row's vault. -/
def MetaCall.update (r : MetaRow) (record : StoredMeta) : MetaCall → StoredMeta
  | .hydrateMetaFromBackend _ => if isMissing record then r.record else record
  | .getVaultMeta _ =>
      if record.withdrawalDestination.any (· ≠ "") then record else record.merge r

/-- A call that brings the row turns the record of the vault into its update by
this row, whatever else is in the store. -/
theorem loadMeta_run {r : MetaRow} {call : MetaCall} (h : Brings call.reply r) (owner : String)
    (store : MetaStore) : loadMeta (call.run owner r.vaultId store) owner r.vaultId =
      call.update r (loadMeta store owner r.vaultId) := by
  cases call with
  | hydrateMetaFromBackend reply =>
      have hLast : lastRow reply.remotes r.vaultId = some r :=
        find?_of_only (List.mem_reverse.mpr h.found) fun q hq => h.only q (List.mem_reverse.mp hq)
      unfold MetaCall.run MetaCall.update
      rw [loadMeta_hydrate, hLast]
      rfl
  | getVaultMeta reply =>
      have hFirst : (reply.remotes.find? fun q => q.vaultId = r.vaultId) = some r :=
        find?_of_only h.found h.only
      unfold MetaCall.run MetaCall.update
      rw [loadMeta_getVaultMeta, hFirst]
      rfl

/-- A run of the calls is a fold over the record of the vault. -/
theorem loadMeta_runCalls {r : MetaRow} {calls : List MetaCall}
    (h : ∀ call ∈ calls, Brings call.reply r) (owner : String) (store : MetaStore) :
    loadMeta (runCalls owner r.vaultId store calls) owner r.vaultId =
      calls.foldl (fun record call => call.update r record) (loadMeta store owner r.vaultId) := by
  unfold runCalls
  induction calls generalizing store with
  | nil => rfl
  | cons call calls ih =>
      rw [List.foldl_cons, List.foldl_cons, ih fun c hc => h c (List.mem_cons_of_mem call hc),
        loadMeta_run (h call List.mem_cons_self)]

@[simp] theorem orText_self (a : String) : orText a a = a := by
  unfold orText
  split_ifs <;> rfl

/-- The record of a row is not changed by its row. -/
theorem merge_record (r : MetaRow) : r.record.merge r = r.record := by
  unfold StoredMeta.merge MetaRow.record
  simp

/-- Once the record is the row itself, every further call that brings the row
leaves it so. -/
theorem update_record (r : MetaRow) (call : MetaCall) : call.update r r.record = r.record := by
  cases call with
  | hydrateMetaFromBackend reply => exact ite_self _
  | getVaultMeta reply =>
      unfold MetaCall.update
      rw [merge_record]
      exact ite_self _

/-- The same for a whole sequence of calls, by induction on the calls. -/
theorem foldl_update_record (r : MetaRow) (calls : List MetaCall) :
    calls.foldl (fun record call => call.update r record) r.record = r.record := by
  induction calls with
  | nil => rfl
  | cons call calls ih => rw [List.foldl_cons, update_record, ih]

/-- What `getVaultMeta` makes of no record: the row, but for its template. The
default template counts as a value. -/
def MetaRow.defaulted (r : MetaRow) : StoredMeta := { r.record with template := "custom" }

/-- Merging the row into an empty record gives the row with the default template
in the place of its own. -/
theorem merge_emptyStored (r : MetaRow) : emptyStored.merge r = r.defaulted := by
  unfold StoredMeta.merge emptyStored emptyMeta MetaRow.defaulted MetaRow.record orText
  simp

/-- A second merge of the same row changes nothing any more, so the template
that the first one missed is missed for good. -/
theorem merge_defaulted (r : MetaRow) : r.defaulted.merge r = r.defaulted := by
  unfold StoredMeta.merge MetaRow.defaulted MetaRow.record orText
  simp

/-- The defaulted record counts as missing if and only if the row has neither a
description nor a target amount. The template does not count. -/
theorem isMissing_defaulted (r : MetaRow) :
    isMissing r.defaulted = true ↔ r.description = "" ∧ r.targetAmount = none := by
  unfold isMissing MetaRow.defaulted MetaRow.record
  simp

/-- The defaulted record is the row's own if and only if the template of the row
is the default one. -/
theorem defaulted_eq_record_iff (r : MetaRow) : r.defaulted = r.record ↔ r.template = "custom" := by
  constructor
  · intro hSame
    have hTemplate := congrArg (fun record : StoredMeta => record.template) hSame
    exact hTemplate.symm
  · intro hTemplate
    unfold MetaRow.defaulted MetaRow.record
    rw [hTemplate]

/-- The first read of a device without a record writes the row itself if it is a
hydration, and the row with the default template if it is `getVaultMeta`. -/
theorem update_emptyStored (r : MetaRow) (call : MetaCall) :
    call.update r emptyStored = if call.hydrates then r.record else r.defaulted := by
  cases call with
  | hydrateMetaFromBackend reply => rfl
  | getVaultMeta reply => exact merge_emptyStored r

/-- A later read of a record with the default template still writes the row if
it is a hydration and the record counts as missing; otherwise nothing changes
any more. -/
theorem update_defaulted (r : MetaRow) (call : MetaCall) : call.update r r.defaulted =
    if call.hydrates ∧ r.description = "" ∧ r.targetAmount = none then r.record
    else r.defaulted := by
  cases call with
  | hydrateMetaFromBackend reply =>
      unfold MetaCall.update MetaCall.hydrates
      simp only [isMissing_defaulted, true_and]
  | getVaultMeta reply =>
      unfold MetaCall.update MetaCall.hydrates
      rw [merge_defaulted]
      simp

/-- A wrong template is put right by a hydration that takes the record for
missing, and by nothing else. -/
theorem foldl_update_defaulted {r : MetaRow} (h : r.template ≠ "custom") (calls : List MetaCall) :
    calls.foldl (fun record call => call.update r record) r.defaulted = r.record ↔
      r.description = "" ∧ r.targetAmount = none ∧ ∃ call ∈ calls, call.hydrates = true := by
  induction calls with
  | nil => simp [defaulted_eq_record_iff, h]
  | cons call calls ih =>
      rw [List.foldl_cons, update_defaulted, List.exists_mem_cons_iff]
      split_ifs with hWrites
      · rw [foldl_update_record]
        exact iff_of_true rfl ⟨hWrites.2.1, hWrites.2.2, Or.inl hWrites.1⟩
      · rw [ih]
        constructor
        · rintro ⟨hDescription, hTarget, hCall⟩
          exact ⟨hDescription, hTarget, Or.inr hCall⟩
        · rintro ⟨hDescription, hTarget, hFirst | hCall⟩
          · exact absurd ⟨hFirst, hDescription, hTarget⟩ hWrites
          · exact ⟨hDescription, hTarget, hCall⟩

/-- On a device without a record of a vault, a sequence of completed reads
leaves the backend's row if and only if the template of the row is the default
one, or the first read is a hydration, or the row has neither description nor
target and some read is a hydration. -/
theorem hydration_converges_iff (owner : String) (r : MetaRow) (store : MetaStore)
    (hNew : store (metaKey owner r.vaultId) = none) (first : MetaCall) (later : List MetaCall)
    (hBrings : ∀ call ∈ first :: later, Brings call.reply r) :
    loadMeta (runCalls owner r.vaultId store (first :: later)) owner r.vaultId = r.record ↔
      r.template = "custom" ∨ first.hydrates = true ∨
        (r.description = "" ∧ r.targetAmount = none ∧ ∃ call ∈ later, call.hydrates = true) := by
  have hStart : loadMeta store owner r.vaultId = emptyStored := by
    unfold loadMeta
    rw [hNew]
    rfl
  rw [loadMeta_runCalls hBrings, hStart, List.foldl_cons, update_emptyStored]
  by_cases hFirst : first.hydrates = true
  · rw [if_pos hFirst, foldl_update_record]
    exact iff_of_true rfl (Or.inr (Or.inl hFirst))
  · rw [if_neg hFirst]
    by_cases hTemplate : r.template = "custom"
    · rw [(defaulted_eq_record_iff r).mpr hTemplate, foldl_update_record]
      exact iff_of_true rfl (Or.inl hTemplate)
    · rw [foldl_update_defaulted hTemplate]
      simp [hTemplate, hFirst]

/-- A row with a template and a description. -/
def rentRow : MetaRow where
  vaultId := "0"
  description := "For the rent"
  template := "home"
  name := some "Rent"

theorem hydration_converges_iff_sample :
    loadMeta (runCalls "7" "0" (fun _ => none) [.hydrateMetaFromBackend (.rows [rentRow]),
      .getVaultMeta (.rows [rentRow])]) "7" "0" = rentRow.record := by
  have hBrings : Brings (.rows [rentRow]) rentRow :=
    ⟨List.mem_singleton.mpr rfl, fun q hq _ => List.mem_singleton.mp hq⟩
  refine (hydration_converges_iff "7" rentRow (fun _ => none) rfl
    (.hydrateMetaFromBackend (.rows [rentRow])) [.getVaultMeta (.rows [rentRow])] ?_).mpr
      (Or.inr (Or.inl rfl))
  intro call hCall
  rcases List.mem_cons.mp hCall with rfl | hCall
  · exact hBrings
  · rw [List.mem_singleton.mp hCall]
    exact hBrings

/-- If the detail screen reads first, the device keeps the default template,
and no hydration repairs it. -/
theorem rentRow_defaulted :
    let reply := BackendReply.rows [rentRow]
    let listFirst := runCalls "7" "0" (fun _ => none)
      [.hydrateMetaFromBackend reply, .getVaultMeta reply]
    let detailFirst := runCalls "7" "0" (fun _ => none)
      [.getVaultMeta reply, .hydrateMetaFromBackend reply]
    (loadMeta listFirst "7" "0").template = "home" ∧
    (loadMeta detailFirst "7" "0").template = "custom" ∧
    loadMeta detailFirst "7" "0" ≠ loadMeta listFirst "7" "0" ∧
    loadMeta detailFirst "7" "0" ≠ rentRow.record := by
  intro reply listFirst detailFirst
  decide

end SorobanClient
