import StellarTimelock.Client.WholeStream
import StellarTimelock.Client.FetchEvents

/-! The write methods: a transaction, then `getVault` without an owner, over
whatever the session has kept of its earlier reads. -/
namespace SorobanClient

open XlmVault Execution FloatingPoint

variable {Address Account Tx Sim Key : Type}

structure CreateVaultInput (Address : Type) where
  owner : Address
  name : String
  description : String
  template : String
  targetAmount : Option Rat
  initialDeposit : Rat
  unlockTimestamp : Rat

/-- What a write method finds and what it is answered. -/
structure Surroundings (Address Account Tx Sim Key : Type) where
  /-- The answers to the read at the end, and the device. -/
  session : Session Address
  simulatePathBroken : Bool
  eventCache : Option EventFetch.EventCache
  /-- The time of that read, in milliseconds. -/
  now : Int
  /-- The storage that a simulated read sees then. -/
  storage : Storage Address
  attempt : Call Address → Attempt Account Tx Sim Key UInt64
  savesMeta : Bool

/-- Why a write method rejects. -/
inductive Rejection where
  | argument
  | soroban (e : SorobanError)
  | storage
  | unreachable (message : String)
  deriving DecidableEq

def orReject {α : Type} (x : Option α) (e : Rejection) : Except Rejection α :=
  match x with
  | some a => .ok a
  | none => .error e

def scI128 (v : Int) : Option I128 :=
  if h : -2 ^ 127 ≤ v ∧ v < 2 ^ 127 then some ⟨v, h.1, h.2⟩ else none

/-- `scU64` of a number: only an integer has a `BigInt`. -/
def scU64OfNumber (v : Rat) : Option UInt64 :=
  if v.den = 1 ∧ 0 ≤ v.num ∧ v.num < 2 ^ 64 then some (UInt64.ofNat v.num.toNat) else none

namespace Surroundings

variable (env : Surroundings Address Account Tx Sim Key)

/-- The session in which the vault is read back. A write leaves the flag and
the event cache as they are; a young cache stands for the fetch. -/
def readBack : Session Address :=
  { env.session with
    simulates := !env.simulatePathBroken && env.session.simulates
    events :=
      match env.eventCache.filter fun cache => env.now - cache.time < EventFetch.eventCacheMs with
      | some cache => some (cache.data.map (·.event))
      | none => env.session.events
    nowSec := env.now / 1000 }

def invoke (method : String) (call : Call Address) : Except Rejection (Option UInt64) :=
  match (invokeContract method (env.attempt call)).result with
  | .ok returnValue => .ok returnValue
  | .error e => .error (.soroban e)

end Surroundings

/-- `getVault` without an owner, which throws when it has nothing to return. -/
def getVaultOrThrow [Arithmetic] (s : Session Address) (storage : Storage Address) (id : String) :
    Except Rejection Vault :=
  orReject (getVault s storage id none).row (.unreachable ("Vault " ++ id ++
    " not reachable on-chain and not in local cache. Try again once the RPC has caught up."))

/-- The session after `saveMeta`. -/
def Session.saveMeta (s : Session Address) (owner vaultId : String) (saved : VaultMeta) :
    Session Address :=
  { s with loadMeta := fun a k => if a = owner ∧ k = vaultId then saved else s.loadMeta a k }

/-- One call of a write method. -/
inductive Write (Address : Type) where
  | createVault (input : CreateVaultInput Address)
  | deposit (id : String) (owner : Address) (amount : Rat)
  | extendLock (id : String) (owner : Address) (additionalSeconds : Rat)
  | withdraw (id : String) (owner : Address)

namespace Write

def method : Write Address → String
  | .createVault _ => "create_vault"
  | .deposit _ _ _ => "deposit"
  | .extendLock _ _ _ => "extend_lock"
  | .withdraw _ _ => "withdraw"

/-- The invocation that a method submits, if its arguments can be encoded. -/
def call [Arithmetic] (s : Session Address) : Write Address → Option (Call Address)
  | .createVault input => do
      let deposit ← scI128 (xlmToStroops input.initialDeposit)
      let unlock ← scU64OfNumber input.unlockTimestamp
      return .createVault input.owner input.name deposit unlock
  | .deposit id owner amount => do
      let vaultId ← s.scU64 id
      let stroops ← scI128 (xlmToStroops amount)
      return .deposit owner vaultId stroops
  | .extendLock id owner additionalSeconds => do
      let vaultId ← s.scU64 id
      let seconds ← scU64OfNumber additionalSeconds
      return .extendLock owner vaultId seconds
  | .withdraw id owner => do
      let vaultId ← s.scU64 id
      return .withdraw owner vaultId

/-- The text by which the vault is read back. -/
def text (id : UInt64) : Write Address → String
  | .createVault _ => idText id
  | .deposit text _ _ | .extendLock text _ _ | .withdraw text _ => text

end Write

section Methods

variable [Arithmetic] (env : Surroundings Address Account Tx Sim Key)

/-- The transaction of a method, and what it returns. -/
def submitted (w : Write Address) : Except Rejection (Option UInt64) := do
  let call ← orReject (w.call env.session) .argument
  env.invoke w.method call

def createVault (input : CreateVaultInput Address) : Except Rejection Vault := do
  let returnValue ← submitted env (.createVault input)
  match returnValue with
  | none => throw (.soroban (sorobanSimulationError "create_vault" "Contract did not return a vault id."))
  | some newId =>
      if env.savesMeta then
        getVaultOrThrow (env.readBack.saveMeta (env.session.key.encode input.owner) (idText newId)
          ⟨input.description, input.template, input.targetAmount, some input.name⟩)
          env.storage (idText newId)
      else throw .storage

/-- A transaction on a vault that exists, which is then read back. -/
def invokeThenRead (w : Write Address) (id : String) : Except Rejection Vault := do
  let _ ← submitted env w
  getVaultOrThrow env.readBack env.storage id

def deposit (id : String) (owner : Address) (amount : Rat) : Except Rejection Vault :=
  invokeThenRead env (.deposit id owner amount) id

def extendLock (id : String) (owner : Address) (additionalSeconds : Rat) : Except Rejection Vault :=
  invokeThenRead env (.extendLock id owner additionalSeconds) id

def withdraw (id : String) (owner : Address) : Except Rejection Vault :=
  invokeThenRead env (.withdraw id owner) id

def Write.perform : Write Address → Except Rejection Vault
  | .createVault input => SorobanClient.createVault env input
  | .deposit id owner amount => SorobanClient.deposit env id owner amount
  | .extendLock id owner additionalSeconds => SorobanClient.extendLock env id owner additionalSeconds
  | .withdraw id owner => SorobanClient.withdraw env id owner

end Methods

/-- The vault that a successful invocation has written. -/
def target : Call Address → Reply → Option UInt64
  | .createVault _ _ _ _, .id id => some id
  | .deposit _ id _, _ => some id
  | .extendLock _ id _, _ => some id
  | .withdraw _ id, _ => some id
  | _, _ => none

/-- The figures are those of the stored vault. -/
structure Figures.Reflects [Arithmetic] (f : Figures) (v : XlmVault.Vault Address) : Prop where
  balance : f.balance = stroopsToXlm v.balance.val
  unlock : f.unlockTimestamp = v.unlockTimestamp.toNat
  withdrawn : f.status = .withdrawn ↔ v.withdrawn = true

/-- The first source of a detail has what is stored: the notes of its events name
the unlock time as the latest day, one of them is a withdrawal if the vault is
withdrawn, and otherwise their amounts add up to the balance; or the cached row
or the row of the backend has these values. -/
def DetailSource.Tells [Arithmetic] (v : XlmVault.Vault Address) : DetailSource → Prop
  | .events es => lastDay es = v.unlockTimestamp.toNat ∧
      ((∃ e ∈ es, e.kind = .withdraw) ↔ v.withdrawn = true) ∧
        (v.withdrawn = false → paid es = stroopsToXlm v.balance.val)
  | .cached row => row.unlockTimestamp = v.unlockTimestamp.toNat ∧
      (row.status = .withdrawn ↔ v.withdrawn = true) ∧ row.balance = stroopsToXlm v.balance.val
  | .backend r => r.unlockTimestamp.getD 0 = v.unlockTimestamp.toNat ∧
      (r.gone ↔ v.withdrawn = true) ∧ r.left = stroopsToXlm v.balance.val

/-- A `create_vault` has returned the id and its meta is saved; and the vault is
simulated, or the first source of `getVault` that has it has what is stored. -/
structure ReadsBack [Arithmetic] (env : Surroundings Address Account Tx Sim Key)
    (w : Write Address) (returned : Option UInt64) (id : UInt64) (v : XlmVault.Vault Address) :
    Prop where
  created : ∀ input, w = .createVault input → returned ≠ none ∧ env.savesMeta = true
  source : env.readBack.simulates = true ∨
    ∃ source, detailSource env.readBack (w.text id) none = some source ∧ source.Tells v

/-- A source has what is stored exactly if it stands for the stored values. -/
theorem DetailSource.tells_iff [Arithmetic] {now : UInt64} {v : XlmVault.Vault Address}
    (hForm : v.WellFormed now) (nowSec : Int) (source : DetailSource) :
    source.Tells v ↔ (source.figures nowSec).Reflects v := by
  cases source with
  | cached row =>
      constructor
      · rintro ⟨hUnlock, hWithdrawn, hBalance⟩
        exact ⟨hBalance, hUnlock, hWithdrawn⟩
      · intro h
        exact ⟨h.unlock, h.withdrawn, h.balance⟩
  | backend r =>
      have hStatus : r.figures.status = .withdrawn ↔ r.gone := by
        unfold RemoteMeta.figures
        by_cases hGone : r.gone <;> simp [hGone]
      constructor
      · rintro ⟨hUnlock, hWithdrawn, hBalance⟩
        exact ⟨hBalance, hUnlock, hStatus.trans hWithdrawn⟩
      · intro h
        exact ⟨h.unlock, hStatus.symm.trans h.withdrawn, h.balance⟩
  | events es =>
      have hStatus : (eventFigures nowSec es).status = .withdrawn ↔
          ∃ e ∈ es, e.kind = .withdraw := by
        rw [← withdraws_iff]
        unfold eventFigures
        cases withdraws es with
        | true => simp
        | false =>
            simp only [Bool.false_eq_true, if_false, iff_false]
            split_ifs <;> exact fun h => by cases h
      have hBalance (hSame : (∃ e ∈ es, e.kind = .withdraw) ↔ v.withdrawn = true) :
          (eventFigures nowSec es).balance = stroopsToXlm v.balance.val ↔
            (v.withdrawn = false → paid es = stroopsToXlm v.balance.val) := by
        have hShown : (eventFigures nowSec es).balance = if withdraws es then 0 else paid es := rfl
        rw [← withdraws_iff] at hSame
        rw [hShown]
        cases hDone : v.withdrawn with
        | true =>
            rw [if_pos (hSame.mpr hDone), hForm.empty_iff_withdrawn.mpr hDone, stroopsToXlm_zero]
            exact iff_of_true rfl (fun h => by cases h)
        | false =>
            have hStay : ¬ withdraws es = true := by
              rw [hSame, hDone]
              exact Bool.false_ne_true
            rw [if_neg hStay]
            exact ⟨fun h _ => h, fun h => h rfl⟩
      constructor
      · rintro ⟨hUnlock, hWithdrawn, hPaid⟩
        exact ⟨(hBalance hWithdrawn).mpr hPaid, hUnlock, hStatus.trans hWithdrawn⟩
      · intro h
        have hWithdrawn := hStatus.symm.trans h.withdrawn
        exact ⟨h.unlock, hWithdrawn, (hBalance hWithdrawn).mp h.balance⟩

theorem toVault_reflects [Arithmetic] (key : StrKey Address) (nowSec : Int) (v : XlmVault.Vault Address)
    (off : VaultMeta) : (toVault key nowSec v off).figures.Reflects v := by
  refine ⟨rfl, rfl, ?_⟩
  show statusFor v nowSec = .withdrawn ↔ v.withdrawn = true
  unfold statusFor
  split_ifs with hDone hDue
  · exact iff_of_true rfl hDone
  · exact iff_of_false (fun h => (by cases h)) hDone
  · exact iff_of_false (fun h => (by cases h)) hDone

/-- What reading back comes to. -/
theorem getVaultOrThrow_reflects [Arithmetic] {s : Session Address} {storage : Storage Address} {id : UInt64}
    {text : String} {v : XlmVault.Vault Address} (hText : s.scU64 text = some id)
    (hVault : storage.vault id = some v) {now : UInt64} (hForm : v.WellFormed now) :
    (∃ row, getVaultOrThrow s storage text = .ok row ∧ row.figures.Reflects v) ↔
      s.simulates = true ∨
        ∃ source, detailSource s text none = some source ∧ source.Tells v := by
  have hRead (row : Vault) : getVaultOrThrow s storage text = .ok row ↔
      (getVault s storage text none).row = some row := by
    unfold getVaultOrThrow orReject
    cases (getVault s storage text none).row with
    | none => simp
    | some found => simp
  simp only [hRead]
  cases hSimulates : s.simulates with
  | true =>
      refine iff_of_true ?_ (Or.inl rfl)
      have hFound : (getVault s storage text none).row =
          some (toVault s.key s.nowSec v (s.loadMeta (s.key.encode v.owner) (idText v.vaultId))) := by
        unfold getVault
        rw [hSimulates, if_pos rfl, hText, Option.bind_some, hVault]
      exact ⟨_, hFound, toVault_reflects _ _ _ _⟩
  | false =>
      have hSame := getVault_figures hSimulates storage text none
      simp only [Bool.false_eq_true, false_or, DetailSource.tells_iff hForm s.nowSec]
      constructor
      · rintro ⟨row, hRow, hReflects⟩
        rw [hRow, Option.map_some, eq_comm, Option.map_eq_some_iff] at hSame
        obtain ⟨source, hSource, hFigures⟩ := hSame
        exact ⟨source, hSource, hFigures ▸ hReflects⟩
      · rintro ⟨source, hSource, hReflects⟩
        rw [hSource, Option.map_some, Option.map_eq_some_iff] at hSame
        obtain ⟨row, hRow, hFigures⟩ := hSame
        exact ⟨row, hRow, hFigures ▸ hReflects⟩

section Reported

variable [Arithmetic] {env : Surroundings Address Account Tx Sim Key} {w : Write Address} {call : Call Address}
  {returned : Option UInt64}

theorem submitted_reported (hCall : w.call env.session = some call)
    (hReported : (invokeContract w.method (env.attempt call)).result = .ok returned) :
    submitted env w = .ok returned := by
  unfold submitted
  rw [hCall]
  show env.invoke w.method call = _
  unfold Surroundings.invoke
  rw [hReported]

/-- What the three methods on a vault that exists do once their transaction has
been reported. -/
theorem perform_existing (hExisting : ∀ input, w ≠ .createVault input)
    (h : submitted env w = .ok returned) (id : UInt64) :
    w.perform env = getVaultOrThrow env.readBack env.storage (w.text id) := by
  have hRead (text : String) :
      invokeThenRead env w text = getVaultOrThrow env.readBack env.storage text := by
    unfold invokeThenRead
    rw [h]
    rfl
  cases w with
  | createVault input => exact absurd rfl (hExisting input)
  | deposit text owner amount => exact hRead text
  | extendLock text owner additionalSeconds => exact hRead text
  | withdraw text owner => exact hRead text

/-- The text of their vault is the one that the transaction was made with. -/
theorem scU64_text (hExisting : ∀ input, w ≠ .createVault input)
    (hCall : w.call env.session = some call) {reply : Reply} {id : UInt64}
    (hTarget : target call reply = some id) : env.session.scU64 (w.text id) = some id := by
  cases w with
  | createVault input => exact absurd rfl (hExisting input)
  | deposit text owner amount =>
      simp only [Write.call, Option.bind_eq_bind, Option.bind_eq_some_iff, Option.pure_def,
        Option.some.injEq] at hCall
      obtain ⟨vaultId, hId, stroops, -, rfl⟩ := hCall
      cases hTarget
      exact hId
  | extendLock text owner additionalSeconds =>
      simp only [Write.call, Option.bind_eq_bind, Option.bind_eq_some_iff, Option.pure_def,
        Option.some.injEq] at hCall
      obtain ⟨vaultId, hId, seconds, -, rfl⟩ := hCall
      cases hTarget
      exact hId
  | withdraw text owner =>
      simp only [Write.call, Option.bind_eq_bind, Option.bind_eq_some_iff, Option.pure_def,
        Option.some.injEq] at hCall
      obtain ⟨vaultId, hId, rfl⟩ := hCall
      cases hTarget
      exact hId

theorem target_createVault {input : CreateVaultInput Address} (hCreates : w = .createVault input)
    (hCall : w.call env.session = some call) {newId id : UInt64}
    (hTarget : target call (.id newId) = some id) : newId = id := by
  subst hCreates
  simp only [Write.call, Option.bind_eq_bind, Option.bind_eq_some_iff, Option.pure_def,
    Option.some.injEq] at hCall
  obtain ⟨deposit, -, unlock, -, rfl⟩ := hCall
  cases hTarget
  rfl

theorem createVault_unnamed {input : CreateVaultInput Address}
    (h : submitted env (.createVault input) = .ok none) :
    createVault env input = .error (.soroban
      (sorobanSimulationError "create_vault" "Contract did not return a vault id.")) := by
  unfold createVault
  rw [h]
  rfl

theorem createVault_named {input : CreateVaultInput Address} {newId : UInt64}
    (h : submitted env (.createVault input) = .ok (some newId)) :
    createVault env input =
      if env.savesMeta then
        getVaultOrThrow (env.readBack.saveMeta (env.session.key.encode input.owner) (idText newId)
          ⟨input.description, input.template, input.targetAmount, some input.name⟩)
          env.storage (idText newId)
      else .error .storage := by
  unfold createVault
  rw [h]
  rfl

/-- After the transaction the method returns the vault as it is stored
exactly if it can read it back. -/
theorem perform_reflects_iff (h : submitted env w = .ok returned) {id : UInt64}
    {v : XlmVault.Vault Address}
    (hNamed : ∀ input newId, w = .createVault input → returned = some newId → newId = id)
    (hText : env.session.scU64 (w.text id) = some id) (hVault : env.storage.vault id = some v)
    {now : UInt64} (hForm : v.WellFormed now) :
    (∃ row, w.perform env = .ok row ∧ row.figures.Reflects v) ↔ ReadsBack env w returned id v := by
  by_cases hCreates : ∃ input, w = .createVault input
  · obtain ⟨input, rfl⟩ := hCreates
    show (∃ row, SorobanClient.createVault env input = .ok row ∧ _) ↔ _
    cases returned with
    | none =>
        rw [createVault_unnamed h]
        refine iff_of_false ?_ (fun hBack => (hBack.created input rfl).1 rfl)
        rintro ⟨row, hRow, -⟩
        cases hRow
    | some newId =>
        rw [createVault_named h, hNamed input newId rfl rfl]
        cases hSaved : env.savesMeta with
        | false =>
            refine iff_of_false ?_ ?_
            · rintro ⟨row, hRow, -⟩
              cases hRow
            · intro hBack
              have hMust := (hBack.created input rfl).2
              rw [hSaved] at hMust
              cases hMust
        | true =>
            rw [if_pos rfl]
            -- The saved meta has none of the figures.
            refine (getVaultOrThrow_reflects (s := env.readBack.saveMeta _ _ _) hText hVault hForm).trans ?_
            constructor
            · intro hBack
              exact ⟨fun _ _ => ⟨Option.some_ne_none _, hSaved⟩, hBack⟩
            · intro hBack
              exact hBack.source
  · have hExisting (input : CreateVaultInput Address) : w ≠ .createVault input :=
      fun hw => hCreates ⟨input, hw⟩
    rw [perform_existing hExisting h id]
    refine (getVaultOrThrow_reflects (s := env.readBack) hText hVault hForm).trans ?_
    constructor
    · intro hBack
      exact ⟨fun input hw => absurd hw (hExisting input), hBack⟩
    · intro hBack
      exact hBack.source

/-- Without an owner and without an event there is no source to turn to. -/
theorem getVaultOrThrow_unseen {s : Session Address} (hSimulates : s.simulates = false)
    {text : String} (hUnseen : firstEvent s text = none) (storage : Storage Address) (row : Vault) :
    getVaultOrThrow s storage text ≠ .ok row := by
  have hSeeded : seededFor s text = [] := by rw [seededFor, hUnseen, Option.elim_none]
  have hSource : detailSource s text none = none := by
    unfold detailSource inferredOwner
    rw [hSeeded, hUnseen]
    rfl
  have hNone : (getVault s storage text none).row = none := by
    have hSame := getVault_figures hSimulates storage text none
    rw [hSource, Option.map_none, Option.map_eq_none_iff] at hSame
    exact hSame
  unfold getVaultOrThrow
  rw [hNone]
  intro hRow
  cases hRow

theorem perform_unseen (h : submitted env w = .ok returned) {id : UInt64}
    (hNamed : ∀ input newId, w = .createVault input → returned = some newId → newId = id)
    (hSimulates : env.readBack.simulates = false)
    (hUnseen : firstEvent env.readBack (w.text id) = none) (row : Vault) :
    w.perform env ≠ .ok row := by
  by_cases hCreates : ∃ input, w = .createVault input
  · obtain ⟨input, rfl⟩ := hCreates
    show SorobanClient.createVault env input ≠ .ok row
    cases returned with
    | none =>
        rw [createVault_unnamed h]
        exact fun hRow => (by cases hRow)
    | some newId =>
        rw [createVault_named h, hNamed input newId rfl rfl]
        split_ifs
        · exact getVaultOrThrow_unseen (s := env.readBack.saveMeta _ _ _) hSimulates hUnseen
            env.storage row
        · exact fun hRow => (by cases hRow)
  · rw [perform_existing (fun input hw => hCreates ⟨input, hw⟩) h id]
    exact getVaultOrThrow_unseen hSimulates hUnseen env.storage row

end Reported

/-- The whole stream tells what is stored, but for the time of day and for what
the additions round off. -/
theorem tells_wholeStream [Arithmetic] {contract : Address} {past : List (Observation contract)}
    {w : World Address} {s : Session Address} (h : Streamed s.key past w)
    {events : List ParsedEvent} (hEvents : parseEvents s.key (emitted past) = .ok events)
    (hSeen : s.events = some events) {id : UInt64} {v : XlmVault.Vault Address}
    (hVault : w.storage.vault id = some v) :
    (∃ source, detailSource s (idText id) none = some source ∧ source.Tells v) ↔
      AtMidnight v.unlockTimestamp ∧
        (v.withdrawn = true ∨ tally (receipts past) id = stroopsToXlm v.balance.val) := by
  obtain ⟨⟨e, hFirst, hOwner⟩, hReplayed⟩ := h.replayed hEvents hVault
  obtain ⟨hMem, hLatest⟩ := h.current id v hVault
  have hForm := h.sound.wellFormed id v hVault
  have hPositive : 0 < v.unlockTimestamp.toNat :=
    Nat.lt_of_le_of_lt (Nat.zero_le _) (UInt64.lt_iff_toNat_lt.mp hForm.created_before_unlock)
  have hSeededFor : seededFor s (idText id) =
      seeded events (s.key.encode v.owner) (idText id) := by
    unfold seededFor firstEvent
    rw [hSeen, Option.getD_some, hFirst, Option.elim_some, hOwner]
  rw [find?_replay_seeded, accumOf_stored hVault] at hReplayed
  cases hSeeded : seeded events (s.key.encode v.owner) (idText id) with
  | nil =>
      rw [hSeeded] at hReplayed
      cases hReplayed
  | cons c later =>
      rw [hSeeded] at hReplayed hSeededFor
      have hCreate := (seeded_head hSeeded).1
      have hSame := Option.some.inj hReplayed
      have hUnlock : latestShown (receipts past) id = lastDay (c :: later) := by
        rw [← accumAfter_unlock later hCreate, hSame]
      have hWithdrawn : v.withdrawn = withdraws (c :: later) := by
        rw [← accumAfter_withdrawn later hCreate, hSame]
      have hBalance (hStay : withdraws (c :: later) = false) :
          tally (receipts past) id = paid (c :: later) := by
        have hPaid := accumAfter_balance later hCreate hStay
        rw [hSame, if_neg (by rw [hWithdrawn, hStay]; exact Bool.false_ne_true)] at hPaid
        exact hPaid
      have hSource : detailSource s (idText id) none = some (.events (c :: later)) := by
        unfold detailSource
        rw [hSeededFor, if_pos (List.cons_ne_nil c later)]
      rw [← latestShown_eq_iff hMem hLatest hPositive, hSource]
      simp only [Option.some.injEq, exists_eq_left', DetailSource.Tells]
      rw [← hUnlock, ← withdraws_iff, ← hWithdrawn]
      refine and_congr Iff.rfl ?_
      cases hDone : v.withdrawn with
      | true => simp
      | false =>
          rw [hBalance (hWithdrawn.symm.trans hDone)]
          simp

section Chain

variable {contract : Address} [DecidableEq Address]

/-- A successful invocation, other than `init`, leaves its vault stored. -/
theorem stored_of_success {w w' : World Address} {r : Receipt Address}
    (h : Effect contract w w' (.invoked r)) {reply : Reply} (hOk : r.result = .ok reply)
    (hInit : ∀ token, r.call ≠ .init token) :
    ∃ id v, target r.call reply = some id ∧ w'.storage.vault id = some v := by
  cases h with
  | failed call failure => cases hOk
  | initialised token => exact absurd rfl (hInit token)
  | created token owner name d u newId next =>
      cases hOk
      exact ⟨newId, _, rfl, Function.update_self _ _ _⟩
  | deposited token caller vaultId amount balance v =>
      exact ⟨vaultId, _, rfl, Function.update_self _ _ _⟩
  | extended caller vaultId seconds u v =>
      exact ⟨vaultId, _, rfl, Function.update_self _ _ _⟩
  | withdrawn token caller vaultId v =>
      exact ⟨vaultId, _, rfl, Function.update_self _ _ _⟩

omit [DecidableEq Address] in
theorem Write.call_ne_init [Arithmetic] {w : Write Address} {s : Session Address} {call : Call Address}
    (h : w.call s = some call) (token : Address) : call ≠ .init token := by
  rintro rfl
  cases w with
  | createVault input =>
      simp [Write.call, Option.bind_eq_some_iff] at h
  | deposit id owner amount =>
      simp [Write.call, Option.bind_eq_some_iff] at h
  | extendLock id owner additionalSeconds =>
      simp [Write.call, Option.bind_eq_some_iff] at h
  | withdraw id owner =>
      simp [Write.call, Option.bind_eq_some_iff] at h

/-- It is still stored whenever the chain is read after that. -/
theorem stored_later (g : Genesis contract) (before later : List (Action contract))
    {auth : Authorisation contract} {client : TokenClient Address} {call : Call Address}
    {reply : Reply} (hSuccess : (step contract (final (step contract) g.world before)
      (.invoke auth client call)).2.result = some (.ok reply))
    (hInit : ∀ token, call ≠ .init token) :
    ∃ id v, target call reply = some id ∧
      (final (step contract) g.world
        (before ++ .invoke auth client call :: later)).storage.vault id = some v := by
  have hEffect := step_effect contract (final (step contract) g.world before)
    (.invoke auth client call)
  simp only [step, Observation.result, Option.some.injEq] at hSuccess
  obtain ⟨id, v, hTarget, hVault⟩ := stored_of_success hEffect hSuccess hInit
  have hSound := World.Sound.reachable g (before ++ [.invoke auth client call])
  rw [final_concat] at hSound
  have hEvolves : (step contract (final (step contract) g.world before)
      (.invoke auth client call)).1.Evolves (final (step contract) (step contract
        (final (step contract) g.world before) (.invoke auth client call)).1 later) :=
    related (step contract) World.Evolves World.Evolves.refl (fun _ _ _ => World.Evolves.trans)
      (fun _ a hs => hs.step a) (fun s a hs => (hs.effect (step_effect contract s a)).2) _ hSound
      later
  obtain ⟨v', hLater, -⟩ := hEvolves id v hVault
  rw [final_append]
  exact ⟨id, v', hTarget, hLater⟩

end Chain

/-! Transactions that are reported successful and not read back. -/

/-- The invocation is submitted and its first status is `SUCCESS`. -/
def confirmed (returned : Option UInt64) : Attempt Unit Unit Unit Unit UInt64 where
  fallbacks := 0
  getAccount _ := .ok ()
  buildTransaction _ := .ok ()
  simulateTransaction _ := .ok (.success ())
  assembleTransaction _ _ := .ok ()
  loadSigningKeypair := .ok (some ())
  signWith _ _ := .ok ()
  sendTransaction _ := .answered ⟨.pending, "hash", none⟩
  getTransaction _ _ := some (.success none returned)

/-- The digits of an id, read as a number. -/
def readDigits (text : String) : Option UInt64 :=
  some (UInt64.ofNat (Nat.ofDigitChars 10 text.toList 0))

theorem readDigits_idText (id : UInt64) : readDigits (idText id) = some id := by
  have hDigits : (idText id).toList = Nat.toDigits 10 id.toNat := Nat.toList_repr
  unfold readDigits
  rw [hDigits, Nat.ofDigitChars_toDigits (by decide) (by decide), UInt64.ofNat_toNat]

section Sample

attribute [local instance] Arithmetic.double

/-- Everything is answered, and the event cache is three seconds old. -/
def online (cached : List ParsedEvent) (run : List (Action (0 : Nat))) (returned : Option UInt64) :
    Surroundings Nat Unit Unit Unit Unit where
  session := { silentDevice with simulates := true, scU64 := readDigits, events := none }
  simulatePathBroken := false
  eventCache := some ⟨1767240000000, cached.map fun e => ⟨"CONTRACT", e⟩⟩
  now := 1767240003000
  storage := (final (step (0 : Nat)) sampleGenesis.world run).storage
  attempt _ := confirmed returned
  savesMeta := true

def rent : CreateVaultInput Nat := ⟨7, "Rent", "", "custom", none, stroopsToXlm 700, 1767268800⟩

/-- The same device once the simulated reads have been found broken. -/
def blind (cached : List ParsedEvent) (run : List (Action (0 : Nat))) (returned : Option UInt64) :
    Surroundings Nat Unit Unit Unit Unit :=
  { online cached run returned with simulatePathBroken := true }

/-- A deposit of 300 into the vault of the noon run. -/
def noonDeposit : List (Action (0 : Nat)) :=
  noonRun ++ [.invoke everyone willing (.deposit 7 0 ⟨300, by decide, by decide⟩)]

end Sample

end SorobanClient
