import StellarTimelock.Contract.Effects
import StellarTimelock.Semantics.Execution

/-! Runs of the deployed contract. Anyone may invoke it, ledger time moves on,
and other addresses move tokens of their own. One observation is kept of each
step; the outcome of an invocation is observed even when it is rolled back. -/
namespace XlmVault

open Transaction

variable {Address : Type}

/-- An invocation of one of the five state-changing entry points. -/
inductive Call (Address : Type) where
  | init (token : Address)
  | createVault (owner : Address) (name : String) (initialDeposit : I128)
      (unlockTimestamp : UInt64)
  | deposit (caller : Address) (vaultId : UInt64) (amount : I128)
  | extendLock (caller : Address) (vaultId additionalSeconds : UInt64)
  | withdraw (caller : Address) (vaultId : UInt64)
  deriving DecidableEq

/-- What a successful invocation returns. -/
inductive Reply where
  | unit
  | id (vaultId : UInt64)
  | unlock (timestamp : UInt64)
  | amount (amount : I128)
  deriving DecidableEq

/-- The addresses that authorise one invocation. The contract's own address
is never among them: no invocation is made on its behalf as an owner. -/
structure Authorisation (contract : Address) where
  grants : Address → Bool
  excludesContract : grants contract = false

/-- A token transfer made outside the contract by another address, which can
only give away what is its own. -/
structure OutsideTransfer (contract : Address) where
  token : Address
  source : Address
  destination : Address
  amount : Nat
  foreign : source ≠ contract

/-- An authorised address is not the contract itself. -/
theorem Authorisation.ne_contract {contract a : Address} (auth : Authorisation contract)
    (h : auth.grants a = true) : a ≠ contract := by
  rintro rfl
  rw [auth.excludesContract] at h
  cases h

inductive Action (contract : Address) where
  | invoke (auth : Authorisation contract) (client : TokenClient Address) (call : Call Address)
  | advance (timestamp : UInt64)
  | outside (t : OutsideTransfer contract)

/-- The outcome of one invocation at one ledger timestamp, with the transfers
it made and the events it published. -/
structure Receipt (Address : Type) where
  call : Call Address
  timestamp : UInt64
  result : Except Failure Reply
  transfers : List (Transfer Address)
  events : List (Event Address)

inductive Observation (contract : Address) where
  | invoked (receipt : Receipt Address)
  | advanced (timestamp : UInt64)
  | moved (t : OutsideTransfer contract)

/-- The result of the observed invocation, if the step was one. -/
def Observation.result {contract : Address} :
    Observation contract → Option (Except Failure Reply)
  | .invoked receipt => some receipt.result
  | _ => none

/-- Contract storage, the balances of all tokens and the ledger timestamp. -/
structure World (Address : Type) where
  storage : Storage Address
  ledger : Ledger Address Address
  now : UInt64

/-- A starting point: any time and any balances, except that nothing has been
sent to the contract's address yet. -/
structure Genesis (contract : Address) where
  ledger : Ledger Address Address
  now : UInt64
  unfunded : ∀ token, ledger token contract = 0

def Genesis.world {contract : Address} (g : Genesis contract) : World Address :=
  { storage := { token := none, nextId := none, vault := fun _ => none, owned := fun _ => none }
    ledger := g.ledger
    now := g.now }

section Step

variable [DecidableEq Address]

/-- The entry point a call names, run in the surroundings of its invocation. -/
def dispatch (env : Env Address) : Call Address → Contract Address Reply
  | .init token => do
      init token
      return .unit
  | .createVault owner name initialDeposit unlockTimestamp => do
      let id ← createVault env owner name initialDeposit unlockTimestamp
      return .id id
  | .deposit caller vaultId amount => do
      deposit env caller vaultId amount
      return .unit
  | .extendLock caller vaultId additionalSeconds => do
      let timestamp ← extendLock env caller vaultId additionalSeconds
      return .unlock timestamp
  | .withdraw caller vaultId => do
      let amount ← withdraw env caller vaultId
      return .amount amount

/-- The host an invocation starts from: nothing logged yet. -/
def World.host (w : World Address) : Host Address := ⟨w.storage, w.ledger, [], []⟩

def step (contract : Address) (w : World Address) : Action contract → World Address × Observation contract
  | .invoke auth client call =>
      let outcome := atomically (dispatch ⟨contract, w.now, auth.grants, client⟩ call) w.host
      ({ w with storage := outcome.2.storage, ledger := outcome.2.ledger },
        .invoked ⟨call, w.now, outcome.1, outcome.2.transfers, outcome.2.events⟩)
  | .advance timestamp =>
      -- Ledger time never moves back.
      let later := if w.now ≤ timestamp then timestamp else w.now
      ({ w with now := later }, .advanced later)
  | .outside t =>
      ({ w with ledger := w.ledger.move t.token t.source t.destination t.amount }, .moved t)

end Step

namespace World

variable [DecidableEq Address]

def initialise (token : Address) (w : World Address) : World Address :=
  { w with storage := { w.storage with token := some token, nextId := some 0 } }

def putVault (id : UInt64) (v : Vault Address) (w : World Address) : World Address :=
  { w with storage := { w.storage with vault := Function.update w.storage.vault id (some v) } }

/-- Count the identifier as used and append it to its owner's index. -/
def allocate (owner : Address) (id next : UInt64) (w : World Address) : World Address :=
  { w with
    storage := { w.storage with
      nextId := some next
      owned := Function.update w.storage.owned owner
        (some ((w.storage.owned owner).getD [] ++ [id])) } }

def transfer (t : Transfer Address) (w : World Address) : World Address :=
  { w with ledger := w.ledger.move t.token t.source t.destination t.amount.val }

end World

variable [DecidableEq Address]

/-- Everything one step can do. The guards of the source are premises, so a
proof by cases on an effect never looks at the entry points again. -/
inductive Effect (contract : Address) (w : World Address) :
    World Address → Observation contract → Prop where
  | failed (call : Call Address) (failure : Failure)
      (hInit : ∀ token, call = .init token → w.storage.token ≠ none) :
      Effect contract w w (.invoked ⟨call, w.now, .error failure, [], []⟩)
  | initialised (token : Address) (hUnset : w.storage.token = none) :
      Effect contract w (w.initialise token) (.invoked ⟨.init token, w.now, .ok .unit, [], []⟩)
  | created (token owner : Address) (name : String) (initialDeposit : I128)
      (unlockTimestamp id next : UInt64) (hOwner : owner ≠ contract)
      (hAmount : 0 < initialDeposit.val) (hTime : w.now < unlockTimestamp)
      (hToken : w.storage.token = some token) (hId : id = w.storage.nextId.getD 0)
      (hNext : id.checkedAdd 1 = some next) :
      Effect contract w
        (((w.allocate owner id next).putVault id
          ⟨id, owner, name, initialDeposit, unlockTimestamp, w.now, false⟩).transfer
            ⟨token, owner, contract, initialDeposit⟩)
        (.invoked ⟨.createVault owner name initialDeposit unlockTimestamp, w.now, .ok (.id id),
          [⟨token, owner, contract, initialDeposit⟩],
          [⟨[.symbol "create", .address owner],
            [.u64 id, .i128 initialDeposit, .u64 unlockTimestamp]⟩]⟩)
  | deposited (token caller : Address) (vaultId : UInt64) (amount balance : I128)
      (v : Vault Address) (hCaller : caller ≠ contract) (hAmount : 0 < amount.val)
      (hVault : w.storage.vault vaultId = some v) (hOwner : v.owner = caller)
      (hLive : v.withdrawn = false) (hToken : w.storage.token = some token)
      (hBalance : v.balance.checkedAdd amount = some balance) :
      Effect contract w
        ((w.putVault vaultId { v with balance }).transfer ⟨token, caller, contract, amount⟩)
        (.invoked ⟨.deposit caller vaultId amount, w.now, .ok .unit,
          [⟨token, caller, contract, amount⟩],
          [⟨[.symbol "deposit", .address caller], [.u64 vaultId, .i128 amount]⟩]⟩)
  | extended (caller : Address) (vaultId additionalSeconds unlockTimestamp : UInt64)
      (v : Vault Address) (hSeconds : additionalSeconds ≠ 0)
      (hVault : w.storage.vault vaultId = some v) (hOwner : v.owner = caller)
      (hLive : v.withdrawn = false)
      (hUnlock : v.unlockTimestamp.checkedAdd additionalSeconds = some unlockTimestamp) :
      Effect contract w (w.putVault vaultId { v with unlockTimestamp })
        (.invoked ⟨.extendLock caller vaultId additionalSeconds, w.now,
          .ok (.unlock unlockTimestamp), [],
          [⟨[.symbol "extend", .address caller], [.u64 vaultId, .u64 unlockTimestamp]⟩]⟩)
  | withdrawn (token caller : Address) (vaultId : UInt64) (v : Vault Address)
      (hCaller : caller ≠ contract) (hVault : w.storage.vault vaultId = some v)
      (hOwner : v.owner = caller) (hLive : v.withdrawn = false)
      (hTime : v.unlockTimestamp ≤ w.now) (hToken : w.storage.token = some token) :
      Effect contract w
        ((w.putVault vaultId { v with balance := 0, withdrawn := true }).transfer
          ⟨token, contract, caller, v.balance⟩)
        (.invoked ⟨.withdraw caller vaultId, w.now, .ok (.amount v.balance),
          [⟨token, contract, caller, v.balance⟩],
          [⟨[.symbol "withdraw", .address caller], [.u64 vaultId, .i128 v.balance]⟩]⟩)
  | advanced (timestamp : UInt64) (hLater : w.now ≤ timestamp) :
      Effect contract w { w with now := timestamp } (.advanced timestamp)
  | outside (t : OutsideTransfer contract) :
      Effect contract w
        { w with ledger := w.ledger.move t.token t.source t.destination t.amount } (.moved t)

/-- A successful invocation has one of the five effects. -/
theorem effect_of_dispatch_ok {contract : Address} {w : World Address} {auth : Authorisation contract}
    {client : TokenClient Address} {call : Call Address} {reply : Reply} {h : Host Address}
    (hRun : EStateM.run (dispatch ⟨contract, w.now, auth.grants, client⟩ call) w.host = .ok reply h) :
    Effect contract w { w with storage := h.storage, ledger := h.ledger }
      (.invoked ⟨call, w.now, .ok reply, h.transfers, h.events⟩) := by
  cases call with
  | init token =>
      simp only [dispatch, run_bind_ok, run_pure_ok, init_ok] at hRun
      obtain ⟨_, _, ⟨hUnset, rfl⟩, rfl, rfl⟩ := hRun
      exact .initialised token hUnset
  | createVault owner name initialDeposit unlockTimestamp =>
      simp only [dispatch, run_bind_ok, run_pure_ok, createVault_ok] at hRun
      obtain ⟨id, _, ⟨hAuth, hAmount, hTime, token, hToken, _, next, hNext, rfl, rfl⟩, rfl, rfl⟩ :=
        hRun
      exact .created token owner name initialDeposit unlockTimestamp _ next
        (auth.ne_contract hAuth) hAmount hTime hToken rfl hNext
  | deposit caller vaultId amount =>
      simp only [dispatch, run_bind_ok, run_pure_ok, deposit_ok] at hRun
      obtain ⟨_, _, ⟨hAuth, hAmount, v, hVault, hOwner, hLive, token, hToken, _, balance, hBalance,
        rfl⟩, rfl, rfl⟩ := hRun
      exact .deposited token caller vaultId amount balance v (auth.ne_contract hAuth) hAmount hVault
        hOwner hLive hToken hBalance
  | extendLock caller vaultId additionalSeconds =>
      simp only [dispatch, run_bind_ok, run_pure_ok, extendLock_ok] at hRun
      obtain ⟨timestamp, _, ⟨_, hSeconds, v, hVault, hOwner, hLive, hUnlock, rfl⟩, rfl, rfl⟩ := hRun
      exact .extended caller vaultId additionalSeconds timestamp v hSeconds hVault hOwner hLive
        hUnlock
  | withdraw caller vaultId =>
      simp only [dispatch, run_bind_ok, run_pure_ok, withdraw_ok] at hRun
      obtain ⟨_, _, ⟨hAuth, v, hVault, hOwner, hLive, hTime, token, hToken, _, rfl, rfl⟩, rfl,
        rfl⟩ := hRun
      exact .withdrawn token caller vaultId v (auth.ne_contract hAuth) hVault hOwner hLive hTime hToken

omit [DecidableEq Address] in
/-- An `init` on a contract without a token is never refused. -/
theorem init_run {w : World Address} (hUnset : w.storage.token = none) {token : Address} :
    EStateM.run (init token) w.host = .ok ⟨⟩ ((w.host.setToken token).setNextId 0) :=
  init_ok.mpr ⟨hUnset, rfl⟩

/-- The inversion of `step`: whatever the action, the step is an effect. -/
theorem step_effect (contract : Address) (w : World Address) (a : Action contract) :
    Effect contract w (step contract w a).1 (step contract w a).2 := by
  cases a with
  | invoke auth client call =>
      simp only [step]
      cases hRun : EStateM.run (dispatch ⟨contract, w.now, auth.grants, client⟩ call) w.host with
      | ok reply h =>
          have hKept := atomically_ok.mpr hRun
          rw [hKept]
          exact effect_of_dispatch_ok hRun
      | error failure h =>
          rw [atomically_error hRun]
          refine .failed call failure ?_
          rintro token rfl hUnset
          simp only [dispatch, EStateM.run_bind, init_run hUnset] at hRun
          cases hRun
  | advance timestamp =>
      simp only [step]
      split_ifs with hLater
      · exact .advanced timestamp hLater
      · exact .advanced w.now (UInt64.le_refl w.now)
  | outside t => exact .outside t

end XlmVault
