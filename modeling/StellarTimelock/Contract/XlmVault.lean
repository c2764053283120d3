import StellarTimelock.Semantics.CheckedInt
import StellarTimelock.Semantics.Ledger
import StellarTimelock.Semantics.Transaction

/-! The `XlmVault` contract, entry point by entry point. A body runs against
the host state it can read and write; `Transaction.atomically` is the host
that rolls a failed invocation back. Addresses are an arbitrary type. -/
namespace XlmVault

open Transaction

/-- The typed errors of the contract. -/
inductive Error where
  | notOwner
  | stillLocked
  | alreadyWithdrawn
  | shortenForbidden
  | vaultNotFound
  | invalidAmount
  | invalidTimestamp
  | alreadyInitialised
  deriving DecidableEq, Repr

/-- The ways an invocation can abort without returning an `Error`. -/
inductive Trap where
  | unauthorised
  | notInitialised
  | transfer
  | overflow
  deriving DecidableEq, Repr

inductive Failure where
  | error (e : Error)
  | trap (t : Trap)
  deriving DecidableEq, Repr

structure Vault (Address : Type) where
  vaultId : UInt64
  owner : Address
  name : String
  balance : I128
  unlockTimestamp : UInt64
  createdTimestamp : UInt64
  withdrawn : Bool
  deriving DecidableEq

/-- One field for each form of `DataKey`; an absent entry is `none`. -/
structure Storage (Address : Type) where
  token : Option Address
  nextId : Option UInt64
  vault : UInt64 → Option (Vault Address)
  owned : Address → Option (List UInt64)

/-- The values the contract puts into event topics and event tuples. -/
inductive ScVal (Address : Type) where
  | symbol (s : String)
  | address (a : Address)
  | u64 (n : UInt64)
  | i128 (n : I128)
  deriving DecidableEq

structure Event (Address : Type) where
  topics : List (ScVal Address)
  value : List (ScVal Address)
  deriving DecidableEq

/-- A transfer made through the token client of an invocation. -/
structure Transfer (Address : Type) where
  token : Address
  source : Address
  destination : Address
  amount : I128
  deriving DecidableEq

/-- A token contract either traps or moves exactly the amount. Which of the
two it does may depend on everything the ledger shows. -/
structure TokenClient (Address : Type) where
  accepts : Ledger Address Address → Transfer Address → Bool

/-- What an invocation reads of its surroundings. -/
structure Env (Address : Type) where
  currentContract : Address
  timestamp : UInt64
  auth : Address → Bool
  client : TokenClient Address

/-- What an invocation can change. The two logs hold what the current
invocation has transferred and published so far. -/
structure Host (Address : Type) where
  storage : Storage Address
  ledger : Ledger Address Address
  transfers : List (Transfer Address)
  events : List (Event Address)

abbrev Contract (Address α : Type) := EStateM Failure (Host Address) α

variable {Address : Type} [DecidableEq Address]

namespace Host

def setToken (token : Address) (h : Host Address) : Host Address :=
  { h with storage := { h.storage with token := some token } }

def setNextId (next : UInt64) (h : Host Address) : Host Address :=
  { h with storage := { h.storage with nextId := some next } }

def setVault (id : UInt64) (v : Vault Address) (h : Host Address) : Host Address :=
  { h with storage := { h.storage with vault := Function.update h.storage.vault id (some v) } }

def setOwned (owner : Address) (ids : List UInt64) (h : Host Address) : Host Address :=
  { h with storage := { h.storage with owned := Function.update h.storage.owned owner (some ids) } }

def publish (topics value : List (ScVal Address)) (h : Host Address) : Host Address :=
  { h with events := h.events ++ [⟨topics, value⟩] }

/-- The ledger after an accepted transfer, and its entry in the log. -/
def moved (t : Transfer Address) (h : Host Address) : Host Address :=
  { h with
    ledger := h.ledger.move t.token t.source t.destination t.amount.val
    transfers := h.transfers ++ [t] }

end Host

def requireAuth (env : Env Address) (a : Address) : Contract Address PUnit :=
  refuseIf (env.auth a = false) (.trap .unauthorised)

/-- `TokenClient::transfer`: a refused transfer aborts the invocation. -/
def transfer (env : Env Address) (t : Transfer Address) : Contract Address PUnit := do
  let host ← get
  refuseIf (env.client.accepts host.ledger t = false) (.trap .transfer)
  modify (Host.moved t)

def load (vaultId : UInt64) : Contract Address (Vault Address) := do
  let host ← get
  orFail (host.storage.vault vaultId) (.error .vaultNotFound)

/-- The configured token; reading it before `init` panics. -/
def token : Contract Address Address := do
  let host ← get
  orFail host.storage.token (.trap .notInitialised)

def pull (env : Env Address) (source : Address) (amount : I128) : Contract Address PUnit := do
  let token ← token
  transfer env ⟨token, source, env.currentContract, amount⟩

def push (env : Env Address) (destination : Address) (amount : I128) :
    Contract Address PUnit := do
  let token ← token
  transfer env ⟨token, env.currentContract, destination, amount⟩

def init (token : Address) : Contract Address PUnit := do
  let host ← get
  refuseIf (host.storage.token.isSome = true) (.error .alreadyInitialised)
  modify (Host.setToken token)
  modify (Host.setNextId 0)

def createVault (env : Env Address) (owner : Address) (name : String) (initialDeposit : I128)
    (unlockTimestamp : UInt64) : Contract Address UInt64 := do
  requireAuth env owner
  refuseIf (initialDeposit ≤ 0) (.error .invalidAmount)
  let now := env.timestamp
  refuseIf (unlockTimestamp ≤ now) (.error .invalidTimestamp)
  pull env owner initialDeposit
  let host ← get
  let id := host.storage.nextId.getD 0
  let next ← orFail (id.checkedAdd 1) (.error .invalidAmount)
  modify (Host.setNextId next)
  let v : Vault Address :=
    { vaultId := id
      owner
      name
      balance := initialDeposit
      unlockTimestamp
      createdTimestamp := now
      withdrawn := false }
  modify (Host.setVault id v)
  let host ← get
  let owned := (host.storage.owned owner).getD []
  modify (Host.setOwned owner (owned ++ [id]))
  modify (Host.publish [.symbol "create", .address owner]
    [.u64 id, .i128 initialDeposit, .u64 unlockTimestamp])
  return id

def deposit (env : Env Address) (caller : Address) (vaultId : UInt64) (amount : I128) :
    Contract Address PUnit := do
  requireAuth env caller
  refuseIf (amount ≤ 0) (.error .invalidAmount)
  let v ← load vaultId
  refuseIf (v.owner ≠ caller) (.error .notOwner)
  refuseIf (v.withdrawn = true) (.error .alreadyWithdrawn)
  pull env caller amount
  -- The release profile keeps overflow checks on, so `+=` panics.
  let balance ← orFail (v.balance.checkedAdd amount) (.trap .overflow)
  modify (Host.setVault vaultId { v with balance })
  modify (Host.publish [.symbol "deposit", .address caller] [.u64 vaultId, .i128 amount])

def extendLock (env : Env Address) (caller : Address) (vaultId additionalSeconds : UInt64) :
    Contract Address UInt64 := do
  requireAuth env caller
  refuseIf (additionalSeconds = 0) (.error .shortenForbidden)
  let v ← load vaultId
  refuseIf (v.owner ≠ caller) (.error .notOwner)
  refuseIf (v.withdrawn = true) (.error .alreadyWithdrawn)
  let unlockTimestamp ← orFail (v.unlockTimestamp.checkedAdd additionalSeconds)
    (.error .invalidTimestamp)
  modify (Host.setVault vaultId { v with unlockTimestamp })
  modify (Host.publish [.symbol "extend", .address caller] [.u64 vaultId, .u64 unlockTimestamp])
  return unlockTimestamp

def withdraw (env : Env Address) (caller : Address) (vaultId : UInt64) :
    Contract Address I128 := do
  requireAuth env caller
  let v ← load vaultId
  refuseIf (v.owner ≠ caller) (.error .notOwner)
  refuseIf (v.withdrawn = true) (.error .alreadyWithdrawn)
  refuseIf (env.timestamp < v.unlockTimestamp) (.error .stillLocked)
  let amount := v.balance
  modify (Host.setVault vaultId { v with balance := 0, withdrawn := true })
  push env caller amount
  modify (Host.publish [.symbol "withdraw", .address caller] [.u64 vaultId, .i128 amount])
  return amount

def getVault (vaultId : UInt64) : Contract Address (Vault Address) := load vaultId

/-- An owner without an index entry owns nothing. -/
def listOwned (owner : Address) : Contract Address (List UInt64) := do
  let host ← get
  return (host.storage.owned owner).getD []

end XlmVault
