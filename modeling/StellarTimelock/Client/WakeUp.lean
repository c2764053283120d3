import StellarTimelock.Client.InvokeContract
import StellarTimelock.Semantics.Transaction

/-! `wakeUpVault`: a RestoreFootprint if the vault is archived, then an
ExtendFootprintTtl. For each transaction the environment fixes what the network
did with it, whether or not the client learns of it. -/
namespace WakeUp

open SorobanClient Transaction

variable {Builder Data Value : Type}

def method : String := "wake_up"

def baseFee : Nat := 10000

inductive Operation where
  | restoreFootprint
  | extendFootprintTtl (extendTo : Nat)
  deriving DecidableEq

structure Tx (Data : Type) where
  fee : Nat
  sorobanData : Data
  operation : Operation

structure RestorePreamble (Builder : Type) where
  minResourceFee : Nat
  transactionData : Builder

/-- What the code reads of a simulation that is not an error. With a preamble
it says that the entry is archived. -/
structure Simulated (Builder : Type) where
  transactionData : Option Builder
  restorePreamble : Option (RestorePreamble Builder)

/-- An exception, with its class if the code gives it one. -/
inductive Thrown where
  | js (message : String)
  | soroban (e : SorobanError)
  deriving DecidableEq

/-- What one transaction meets with. A reported success is true. -/
structure Handling (Value : Type) where
  sign : Except String Unit
  sendTransaction : Submission
  getTransaction : Nat → Option (GetReply Value)
  landed : Bool
  landed_of_success : ∀ attempt ledger returnValue,
    getTransaction attempt = some (.success ledger returnValue) → landed = true

/-- Everything one call depends on. The probe of step A has the number 0. -/
structure Environment (Builder Data Value : Type) where
  loadSigningKeypair : Except String (Option String)
  fromSecret : String → Except String Unit
  buildProbe : Nat → Except String Unit
  simulateTransaction : Nat → Except RpcError (SimulateReply (Simulated Builder))
  loadAccount : Operation → Except String Unit
  /-- `build()` of a footprint. -/
  build : Builder → Except String Data
  buildTransaction : Tx Data → Except String Unit
  /-- The footprint with all its keys read-only. -/
  promote : Builder → Except String Builder
  handle : Tx Data → Handling Value

/-- A transaction that was sent, with the hash in the reply. -/
structure Submitted (Data : Type) where
  tx : Tx Data
  hash : Option String
  landed : Bool

structure Sending (Data : Type) where
  result : Except SorobanError String
  submitted : List (Submitted Data)
  receipts : List TxReceipt

def submitOne (tx : Tx Data) (h : Handling Value) : Sending Data :=
  match h.sign with
  | .error e => ⟨.error (sorobanSignError method e), [], []⟩
  | .ok _ =>
      match h.sendTransaction with
      | .requestLost message =>
          ⟨.error (sorobanNetworkError method .send message), [⟨tx, none, h.landed⟩], []⟩
      | .replyLost _ message =>
          ⟨.error (sorobanNetworkError method .send message), [⟨tx, none, h.landed⟩], []⟩
      | .answered reply =>
          let submitted : List (Submitted Data) := [⟨tx, some reply.hash, h.landed⟩]
          match reply.status with
          | .error => ⟨.error (sorobanSendError method (reply.detail.getD reply.status.text)
              (some reply.hash)), submitted, []⟩
          | .duplicate => ⟨.error (sorobanSendError method reply.status.text (some reply.hash)),
              submitted, []⟩
          | .pending | .tryAgainLater =>
              let ended := confirm method reply.hash h.getTransaction
              ⟨ended.result.map fun _ => reply.hash, submitted, [ended.receipt]⟩

/-- One simulated `get_vault`. -/
def probe (env : Environment Builder Data Value) (attempt : Nat) :
    Except Thrown (Simulated Builder) :=
  match env.buildProbe attempt with
  | .error e => .error (.js e)
  | .ok _ =>
      match env.simulateTransaction attempt with
      | .error e => .error (.soroban (sorobanNetworkError method .simulate e.message))
      | .ok (.error message) => .error (.soroban (sorobanSimulationError method message))
      | .ok (.success sim) => .ok sim

/-- The simulation that step C goes by: the first of `left` more that finds the
entry live, or the one that is there. -/
def reSimulate (env : Environment Builder Data Value) (sim : Simulated Builder) :
    (left attempt : Nat) → Simulated Builder
  | 0, _ => sim
  | left + 1, attempt =>
      match probe env attempt with
      | .error _ => reSimulate env sim left (attempt + 1)
      | .ok reSim =>
          if reSim.restorePreamble.isSome then reSimulate env sim left (attempt + 1) else reSim

def reSimAttempts : Nat := 3

def restoreTransaction (env : Environment Builder Data Value)
    (preamble : RestorePreamble Builder) : Except String (Tx Data) := do
  env.loadAccount .restoreFootprint
  let sorobanData ← env.build preamble.transactionData
  let tx : Tx Data := ⟨preamble.minResourceFee + 1000, sorobanData, .restoreFootprint⟩
  env.buildTransaction tx
  return tx

def extendTo : Nat := 535679

def extendTransaction (env : Environment Builder Data Value) (sorobanData : Data) :
    Except String (Tx Data) := do
  env.loadAccount (.extendFootprintTtl extendTo)
  let tx : Tx Data := ⟨baseFee * 50, sorobanData, .extendFootprintTtl extendTo⟩
  env.buildTransaction tx
  return tx

/-- The footprint of the second transaction, if there is one. -/
def extendSorobanData (env : Environment Builder Data Value) (sim : Simulated Builder)
    (extendFootprint : Option Builder) : Except String (Option Data) :=
  match sim.transactionData.or extendFootprint with
  | some footprint => (env.build footprint).map some
  | none => .ok none

/-- The local variables of a call, and what it has sent. -/
structure Progress (Data : Type) where
  txHashes : List String := []
  restored : Bool := false
  extended : Bool := false
  submitted : List (Submitted Data) := []
  receipts : List TxReceipt := []

structure Outcome where
  restored : Bool
  extended : Bool
  txHashes : List String
  deriving DecidableEq

structure Waking (Data : Type) where
  result : Except Thrown Outcome
  progress : Progress Data

/-- Step B for an archived entry. -/
def restore (env : Environment Builder Data Value) (preamble : RestorePreamble Builder) :
    Progress Data × Except Thrown Unit :=
  match restoreTransaction env preamble with
  | .error e => ({}, .error (.js e))
  | .ok tx =>
      let sent := submitOne tx (env.handle tx)
      match sent.result with
      | .error e => ({ submitted := sent.submitted, receipts := sent.receipts }, .error (.soroban e))
      | .ok hash =>
          ({ txHashes := [hash], restored := true, submitted := sent.submitted,
             receipts := sent.receipts }, .ok ())

/-- Step C. Once restored, the entry that could not be extended is an error of
its own. -/
def extend (env : Environment Builder Data Value) (progress : Progress Data)
    (sim : Simulated Builder) (extendFootprint : Option Builder) :
    Progress Data × Except Thrown Unit :=
  match extendSorobanData env sim extendFootprint with
  | .error e => (progress, .error (.js e))
  | .ok none => (progress, .ok ())
  | .ok (some sorobanData) =>
      match extendTransaction env sorobanData with
      | .error e => (progress, .error (.js e))
      | .ok tx =>
          let sent := submitOne tx (env.handle tx)
          let after : Progress Data :=
            { progress with
              submitted := progress.submitted ++ sent.submitted
              receipts := progress.receipts ++ sent.receipts }
          match sent.result with
          | .ok hash =>
              ({ after with txHashes := after.txHashes ++ [hash], extended := true }, .ok ())
          | .error e =>
              let thrown := if progress.restored then
                  sorobanOnChainError method (progress.txHashes.getLast?.getD "unknown")
                else e
              (after, .error (.soroban thrown))

/-- The end of a call. The steps that follow, the drop of the caches and the
push of a snapshot, reject nothing. -/
def conclude : Progress Data × Except Thrown Unit → Waking Data
  | (progress, .error e) => ⟨.error e, progress⟩
  | (progress, .ok _) =>
      if !progress.restored && !progress.extended then
        ⟨.error (.soroban (sorobanSimulationError method
          "Vault is already live and has sufficient TTL. No action needed.")), progress⟩
      else ⟨.ok ⟨progress.restored, progress.extended, progress.txHashes⟩, progress⟩

/-- Step A: the signer is there and the entry has been simulated. -/
def firstSimulation (env : Environment Builder Data Value) : Except Thrown (Simulated Builder) :=
  match env.loadSigningKeypair with
  | .error e => .error (.js e)
  | .ok none => .error (.soroban (walletNotConnectedError method))
  | .ok (some secretSeed) =>
      match env.fromSecret secretSeed with
      | .error e => .error (.js e)
      | .ok _ => probe env 0

def wakeUpVault (env : Environment Builder Data Value) : Waking Data :=
  match firstSimulation env with
  | .error e => ⟨.error e, {}⟩
  | .ok sim =>
      match sim.restorePreamble with
      | none => conclude (extend env {} sim none)
      | some preamble =>
          match restore env preamble with
          | (progress, .error e) => ⟨.error e, progress⟩
          | (progress, .ok _) => conclude (extend env progress (reSimulate env sim reSimAttempts 1)
              (env.promote preamble.transactionData).toOption)

def Submitted.restores (s : Submitted Data) : Prop := s.tx.operation = .restoreFootprint

def Submitted.extends (s : Submitted Data) : Prop :=
  s.tx.operation = .extendFootprintTtl extendTo

/-- What a call tells of the transactions it has sent is what the network has
done with them. -/
structure Progress.Told (p : Progress Data) : Prop where
  txHashes : p.txHashes.map some = (p.submitted.filter (·.landed)).map (·.hash)
  restored : p.restored = true ↔ ∃ s ∈ p.submitted, s.restores ∧ s.landed = true
  extended : p.extended = true ↔ ∃ s ∈ p.submitted, s.extends ∧ s.landed = true

/-- The double handshake: a call resolves only with the second transaction on
the ledger, and then tells exactly what has landed; a first transaction alone
is a rejection. -/
def DoubleHandshake (w : Waking Data) : Prop :=
  (∀ outcome, w.result = .ok outcome →
    (∃ s ∈ w.progress.submitted, s.extends ∧ s.landed = true) ∧
    outcome.txHashes.map some = (w.progress.submitted.filter (·.landed)).map (·.hash) ∧
    (outcome.restored = true ↔ ∃ s ∈ w.progress.submitted, s.restores ∧ s.landed = true) ∧
    (outcome.extended = true ↔ ∃ s ∈ w.progress.submitted, s.extends ∧ s.landed = true)) ∧
  ((∃ s ∈ w.progress.submitted, s.restores ∧ s.landed = true) →
    (¬ ∃ s ∈ w.progress.submitted, s.extends ∧ s.landed = true) → ∃ e, w.result = .error e)

/-- The entry is restored, and there is no footprint for the second
transaction: the last simulation has none and none can be made of the
preamble. -/
def NoFootprint (env : Environment Builder Data Value) : Prop :=
  ∃ sim preamble tx hash e, firstSimulation env = .ok sim ∧ sim.restorePreamble = some preamble ∧
    restoreTransaction env preamble = .ok tx ∧ (submitOne tx (env.handle tx)).result = .ok hash ∧
    env.promote preamble.transactionData = .error e ∧
    (reSimulate env sim reSimAttempts 1).transactionData = none

/-! One transaction. -/

theorem poll_success {getTransaction : Nat → Option (GetReply Value)} {left attempt : Nat}
    {ledger : Option Nat} {returnValue : Option Value}
    (h : (poll getTransaction left attempt).1 = some (some (ledger, returnValue))) :
    ∃ k, getTransaction k = some (.success ledger returnValue) := by
  induction left generalizing attempt with
  | zero => cases h
  | succ left ih =>
      unfold poll at h
      split at h
      · next hSuccess =>
          cases h
          exact ⟨attempt, hSuccess⟩
      · cases h
      · exact ih h
      · exact ih h

theorem confirm_ok {txHash : String} {getTransaction : Nat → Option (GetReply Value)}
    {value : Option Value} (h : (confirm method txHash getTransaction).result = .ok value) :
    ∃ k ledger, getTransaction k = some (.success ledger value) := by
  unfold confirm SorobanClient.conclude at h
  split at h
  · next ledger returnValue queries hPoll =>
      cases h
      obtain ⟨k, hSuccess⟩ := poll_success (congrArg Prod.fst hPoll)
      exact ⟨k, ledger, hSuccess⟩
  · cases h
  · cases h

/-- A transaction whose hash is returned has landed. -/
theorem submitOne_ok {tx : Tx Data} {h : Handling Value} {hash : String}
    (hResult : (submitOne tx h).result = .ok hash) :
    (submitOne tx h).submitted = [⟨tx, some hash, true⟩] := by
  have hConfirmed : ∀ reply : SendReply,
      ((confirm method reply.hash h.getTransaction).result.map fun _ => reply.hash) = .ok hash →
      ([⟨tx, some reply.hash, h.landed⟩] : List (Submitted Data)) = [⟨tx, some hash, true⟩] := by
    intro reply hMap
    cases hEnd : (confirm method reply.hash h.getTransaction).result with
    | error e =>
        rw [hEnd] at hMap
        cases hMap
    | ok value =>
        rw [hEnd] at hMap
        cases hMap
        obtain ⟨k, ledger, hSuccess⟩ := confirm_ok hEnd
        rw [h.landed_of_success k ledger value hSuccess]
  unfold submitOne at hResult ⊢
  split at hResult
  · cases hResult
  · split at hResult
    · cases hResult
    · cases hResult
    · next reply hSent =>
        simp only at hResult ⊢
        cases hStatus : reply.status with
        | error =>
            rw [hStatus] at hResult
            cases hResult
        | duplicate =>
            rw [hStatus] at hResult
            cases hResult
        | pending =>
            rw [hStatus] at hResult
            exact hConfirmed reply hResult
        | tryAgainLater =>
            rw [hStatus] at hResult
            exact hConfirmed reply hResult

theorem restoreTransaction_operation {env : Environment Builder Data Value}
    {preamble : RestorePreamble Builder} {tx : Tx Data}
    (h : restoreTransaction env preamble = .ok tx) : tx.operation = .restoreFootprint := by
  unfold restoreTransaction at h
  simp only [except_bind_ok] at h
  obtain ⟨_, _, sorobanData, _, _, _, hReturn⟩ := h
  cases hReturn
  rfl

theorem extendTransaction_operation {env : Environment Builder Data Value} {sorobanData : Data}
    {tx : Tx Data} (h : extendTransaction env sorobanData = .ok tx) :
    tx.operation = .extendFootprintTtl extendTo := by
  unfold extendTransaction at h
  simp only [except_bind_ok] at h
  obtain ⟨_, _, _, _, hReturn⟩ := h
  cases hReturn
  rfl

/-- Step B that goes through has restored the entry and nothing else. -/
theorem restore_ok {env : Environment Builder Data Value} {preamble : RestorePreamble Builder}
    {p : Progress Data} (h : restore env preamble = (p, .ok ())) :
    (∃ tx hash, restoreTransaction env preamble = .ok tx ∧
      (submitOne tx (env.handle tx)).result = .ok hash) ∧
    p.Told ∧ p.restored = true ∧ p.extended = false := by
  unfold restore at h
  split at h
  · cases h
  · next tx hTx =>
      simp only at h
      split at h
      · cases h
      · next hash hSent =>
          cases h
          have hOperation := restoreTransaction_operation hTx
          refine ⟨⟨tx, hash, hTx, hSent⟩, ?_, rfl, rfl⟩
          rw [submitOne_ok hSent]
          refine ⟨rfl, iff_of_true rfl ⟨_, List.mem_singleton.mpr rfl, hOperation, rfl⟩,
            iff_of_false Bool.false_ne_true ?_⟩
          rintro ⟨s, hs, hExtends, -⟩
          obtain rfl := List.mem_singleton.mp hs
          have hOther : tx.operation = .extendFootprintTtl extendTo := hExtends
          rw [hOperation] at hOther
          cases hOther

/-- Step C that goes through has extended the entry, or had no footprint. -/
theorem extend_ok {env : Environment Builder Data Value} {p after : Progress Data}
    {sim : Simulated Builder} {extendFootprint : Option Builder} (hTold : p.Told)
    (h : extend env p sim extendFootprint = (after, .ok ())) :
    (extendSorobanData env sim extendFootprint = .ok none ∧ after = p) ∨
      (after.Told ∧ after.extended = true ∧ after.restored = p.restored) := by
  unfold extend at h
  split at h
  · cases h
  · next hNone =>
      cases h
      exact Or.inl ⟨hNone, rfl⟩
  · next sorobanData hData =>
      split at h
      · cases h
      · next tx hTx =>
          simp only at h
          split at h
          · next hash hSent =>
              cases h
              have hOperation := extendTransaction_operation hTx
              rw [submitOne_ok hSent]
              refine Or.inr ⟨⟨?_, ?_, ?_⟩, rfl, rfl⟩
              · simp only [List.map_append, List.filter_append, hTold.txHashes]
                rfl
              · simp only [List.mem_append, or_and_right, exists_or, hTold.restored]
                refine (or_iff_left ?_).symm
                rintro ⟨s, hs, hRestores, -⟩
                obtain rfl := List.mem_singleton.mp hs
                have hOther : tx.operation = .restoreFootprint := hRestores
                rw [hOperation] at hOther
                cases hOther
              · exact iff_of_true rfl ⟨⟨tx, some hash, true⟩,
                  List.mem_append_right _ (List.mem_singleton.mpr rfl), hOperation, rfl⟩
          · cases h

theorem told_nothing : ({} : Progress Data).Told := by
  refine ⟨rfl, iff_of_false Bool.false_ne_true ?_, iff_of_false Bool.false_ne_true ?_⟩
  · rintro ⟨s, hs, -⟩
    exact absurd hs List.not_mem_nil
  · rintro ⟨s, hs, -⟩
    exact absurd hs List.not_mem_nil

/-- A call that rejects breaks no promise. -/
theorem doubleHandshake_error (e : Thrown) (p : Progress Data) :
    DoubleHandshake ⟨.error e, p⟩ :=
  ⟨fun _ hOk => (by cases hOk), fun _ _ => ⟨e, rfl⟩⟩

theorem doubleHandshake_extended {p : Progress Data} (hTold : p.Told) (h : p.extended = true) :
    DoubleHandshake (conclude (p, .ok ())) := by
  have hExtended := hTold.extended.mp h
  unfold conclude
  simp only [h, Bool.not_true, Bool.and_false, Bool.false_eq_true, if_false]
  refine ⟨?_, fun _ hNone => absurd hExtended hNone⟩
  rintro outcome hOk
  cases hOk
  exact ⟨hExtended, hTold.txHashes, hTold.restored, iff_of_true rfl hExtended⟩

/-- What goes wrong: an entry that was restored and not extended, and a call
that resolves all the same. -/
theorem not_doubleHandshake_restored {p : Progress Data} (hTold : p.Told)
    (hRestored : p.restored = true) (hExtended : p.extended = false) :
    ¬ DoubleHandshake (conclude (p, .ok ())) := by
  unfold conclude
  simp only [hRestored, Bool.not_true, Bool.false_and, Bool.false_eq_true, if_false]
  intro h
  obtain ⟨s, hs, hExtends, hLanded⟩ := (h.1 _ rfl).1
  have hTrue := hTold.extended.mpr ⟨s, hs, hExtends, hLanded⟩
  rw [hExtended] at hTrue
  cases hTrue

theorem extendSorobanData_none {env : Environment Builder Data Value} {sim : Simulated Builder}
    {extendFootprint : Option Builder} :
    extendSorobanData env sim extendFootprint = .ok none ↔
      sim.transactionData = none ∧ extendFootprint = none := by
  unfold extendSorobanData
  split
  · next footprint hSome =>
      constructor
      · intro h
        cases hBuilt : env.build footprint with
        | error e =>
            rw [hBuilt] at h
            cases h
        | ok sorobanData =>
            rw [hBuilt] at h
            cases h
      · rintro ⟨hNone, rfl⟩
        rw [hNone] at hSome
        cases hSome
  · next hNone => exact iff_of_true rfl (Option.or_eq_none_iff.mp hNone)

theorem restore_eq {env : Environment Builder Data Value} {preamble : RestorePreamble Builder}
    {tx : Tx Data} {hash : String} (hTx : restoreTransaction env preamble = .ok tx)
    (hSent : (submitOne tx (env.handle tx)).result = .ok hash) :
    (restore env preamble).2 = .ok () := by
  unfold restore
  rw [hTx]
  simp only [hSent]

/-- Once the first simulation has asked for a restore, what matters is whether
it succeeds and leaves no footprint to extend. -/
theorem noFootprint_iff {env : Environment Builder Data Value} {sim : Simulated Builder}
    {preamble : RestorePreamble Builder} (hFirst : firstSimulation env = .ok sim)
    (hPreamble : sim.restorePreamble = some preamble) :
    NoFootprint env ↔ (restore env preamble).2 = .ok () ∧
      extendSorobanData env (reSimulate env sim reSimAttempts 1)
        (env.promote preamble.transactionData).toOption = .ok none := by
  rw [extendSorobanData_none]
  constructor
  · rintro ⟨sim', preamble', tx, hash, e, hFirst', hPreamble', hTx, hSent, hPromote, hNone⟩
    rw [hFirst] at hFirst'
    cases hFirst'
    rw [hPreamble] at hPreamble'
    cases hPreamble'
    rw [hPromote]
    exact ⟨restore_eq hTx hSent, hNone, rfl⟩
  · rintro ⟨hRestored, hNone, hFallback⟩
    obtain ⟨⟨tx, hash, hTx, hSent⟩, -⟩ :=
      restore_ok (p := (restore env preamble).1) (Prod.ext rfl hRestored)
    cases hPromote : env.promote preamble.transactionData with
    | error e => exact ⟨sim, preamble, tx, hash, e, hFirst, hPreamble, hTx, hSent, hPromote, hNone⟩
    | ok footprint =>
        rw [hPromote] at hFallback
        cases hFallback

/-- Without a footprint step C is passed over. -/
theorem extend_none {env : Environment Builder Data Value} (p : Progress Data)
    {sim : Simulated Builder} {extendFootprint : Option Builder}
    (h : extendSorobanData env sim extendFootprint = .ok none) :
    extend env p sim extendFootprint = (p, .ok ()) := by
  unfold extend
  rw [h]

/-- An entry that is not archived needs no restore, so step C can do what it
likes. -/
theorem extend_live (env : Environment Builder Data Value) (sim : Simulated Builder) :
    DoubleHandshake (conclude (extend env {} sim none)) := by
  cases hExtend : extend env {} sim none with
  | mk p result =>
      cases result with
      | error e => exact doubleHandshake_error e p
      | ok _ =>
          rcases extend_ok told_nothing hExtend with ⟨-, rfl⟩ | ⟨hTold, hExtended, -⟩
          · exact doubleHandshake_error _ _
          · exact doubleHandshake_extended hTold hExtended

/-- After an entry was restored and before it is extended, the handshake depends
on step C alone: it holds unless step C has no footprint to extend and is passed
over. -/
theorem extend_restored (env : Environment Builder Data Value) {p : Progress Data}
    (hTold : p.Told) (hRestored : p.restored = true) (hExtended : p.extended = false)
    (sim : Simulated Builder) (extendFootprint : Option Builder) :
    DoubleHandshake (conclude (extend env p sim extendFootprint)) ↔
      extendSorobanData env sim extendFootprint ≠ .ok none := by
  by_cases hNone : extendSorobanData env sim extendFootprint = .ok none
  · rw [extend_none p hNone]
    exact iff_of_false (not_doubleHandshake_restored hTold hRestored hExtended)
      (fun h => h hNone)
  · refine iff_of_true ?_ hNone
    cases hExtend : extend env p sim extendFootprint with
    | mk after result =>
        cases result with
        | error e => exact doubleHandshake_error e after
        | ok _ =>
            rcases extend_ok hTold hExtend with ⟨hNo, -⟩ | ⟨hAfter, hDone, -⟩
            · exact absurd hNo hNone
            · exact doubleHandshake_extended hAfter hDone

/-- Whatever the network answers, the double handshake holds exactly where a
restored entry has a footprint to be extended with. -/
theorem double_handshake_iff (env : Environment Builder Data Value) :
    DoubleHandshake (wakeUpVault env) ↔ ¬ NoFootprint env := by
  cases hFirst : firstSimulation env with
  | error e =>
      have hWake : wakeUpVault env = ⟨.error e, {}⟩ := by simp only [wakeUpVault, hFirst]
      rw [hWake]
      refine iff_of_true (doubleHandshake_error e {}) ?_
      rintro ⟨sim, _, _, _, _, hSim, -⟩
      rw [hFirst] at hSim
      cases hSim
  | ok sim =>
      cases hPreamble : sim.restorePreamble with
      | none =>
          have hWake : wakeUpVault env = conclude (extend env {} sim none) := by
            simp only [wakeUpVault, hFirst, hPreamble]
          rw [hWake]
          refine iff_of_true (extend_live env sim) ?_
          rintro ⟨sim', preamble, _, _, _, hSim, hSome, -⟩
          rw [hFirst] at hSim
          cases hSim
          rw [hPreamble] at hSome
          cases hSome
      | some preamble =>
          rw [noFootprint_iff hFirst hPreamble]
          cases hRestore : restore env preamble with
          | mk p result =>
              cases result with
              | error e =>
                  have hWake : wakeUpVault env = ⟨.error e, p⟩ := by
                    simp only [wakeUpVault, hFirst, hPreamble, hRestore]
                  rw [hWake]
                  refine iff_of_true (doubleHandshake_error e p) ?_
                  rintro ⟨hOk, -⟩
                  cases hOk
              | ok _ =>
                  have hWake : wakeUpVault env = conclude (extend env p
                      (reSimulate env sim reSimAttempts 1)
                      (env.promote preamble.transactionData).toOption) := by
                    simp only [wakeUpVault, hFirst, hPreamble, hRestore]
                  obtain ⟨-, hTold, hRestored, hExtended⟩ := restore_ok hRestore
                  rw [hWake, extend_restored env hTold hRestored hExtended]
                  simp only [true_and, ne_eq]

/-! A restored entry without a footprint. -/

def confirmed (hash : String) : Handling Unit where
  sign := .ok ()
  sendTransaction := .answered ⟨.pending, hash, none⟩
  getTransaction := fun _ => some (.success (some 1) none)
  landed := true
  landed_of_success := fun _ _ _ _ => rfl

/-- The keys of the preamble cannot be read, and no simulation carries
`transactionData`. -/
def bareReplies : Environment Unit Unit Unit where
  loadSigningKeypair := .ok (some "S")
  fromSecret := fun _ => .ok ()
  buildProbe := fun _ => .ok ()
  simulateTransaction := fun attempt =>
    .ok (.success ⟨none, if attempt = 0 then some ⟨100, ()⟩ else none⟩)
  loadAccount := fun _ => .ok ()
  build := fun _ => .ok ()
  buildTransaction := fun _ => .ok ()
  promote := fun _ => .error "XDR Read Error"
  handle := fun _ => confirmed "h1"

/-- Restored, not extended, and the call resolves. -/
theorem restore_without_extend :
    (wakeUpVault bareReplies).result = .ok ⟨true, false, ["h1"]⟩ ∧
      ¬ DoubleHandshake (wakeUpVault bareReplies) := by
  have hResult : (wakeUpVault bareReplies).result = .ok ⟨true, false, ["h1"]⟩ := rfl
  refine ⟨hResult, ?_⟩
  intro h
  obtain ⟨hExtends, -, -, hTells⟩ := h.1 _ hResult
  exact Bool.false_ne_true (hTells.mpr hExtends)

end WakeUp
