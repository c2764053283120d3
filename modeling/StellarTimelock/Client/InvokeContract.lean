import StellarTimelock.Client.Errors

/-! `invokeContract`, phase by phase. The environment answers every call that
leaves the program; for a submission it also fixes what the network did with
it, whether or not the reply arrived. -/
namespace SorobanClient

variable {Account Tx Sim Key Value : Type}

/-- An exception of an RPC call. `transport` is what `isRpcTransportError` says. -/
structure RpcError where
  message : String
  transport : Bool
  deriving DecidableEq

inductive SimulateReply (Sim : Type) where
  | error (message : String)
  | success (sim : Sim)

inductive SendStatus where
  | pending
  | duplicate
  | tryAgainLater
  | error
  deriving DecidableEq, Repr

def SendStatus.text : SendStatus → String
  | .pending => "PENDING"
  | .duplicate => "DUPLICATE"
  | .tryAgainLater => "TRY_AGAIN_LATER"
  | .error => "ERROR"

/-- The network holds the transaction after a submission with this status. -/
def SendStatus.accepted : SendStatus → Bool
  | .pending => true
  | .duplicate => true
  | .tryAgainLater => false
  | .error => false

structure SendReply where
  status : SendStatus
  hash : String
  /-- The name of the result code of an `ERROR`, if it is not empty. -/
  detail : Option String
  deriving DecidableEq

/-- One submission: what the server did with it, if it got there, and the
exception the client sees instead of the reply, if any. -/
inductive Submission where
  | answered (reply : SendReply)
  | replyLost (processed : SendReply) (message : String)
  | requestLost (message : String)
  deriving DecidableEq

inductive GetReply (Value : Type) where
  | notFound
  | success (ledger : Option Nat) (returnValue : Option Value)
  | failed

/-- Everything one call of `invokeContract` depends on. Exceptions of local
steps are texts; the account and the status are asked for repeatedly. -/
structure Attempt (Account Tx Sim Key Value : Type) where
  fallbacks : Nat
  getAccount : Nat → Except RpcError Account
  buildTransaction : Account → Except String Tx
  simulateTransaction : Tx → Except RpcError (SimulateReply Sim)
  assembleTransaction : Tx → Sim → Except String Tx
  loadSigningKeypair : Except String (Option Key)
  signWith : Key → Tx → Except String Tx
  sendTransaction : Tx → Submission
  /-- `none` is a reply that did not come. -/
  getTransaction : String → Nat → Option (GetReply Value)

/-- The failover loop of `loadAccount`: `left` candidates remain after the
current one. -/
def loadAccountFrom (getAccount : Nat → Except RpcError Account) :
    (left attempt : Nat) → Except RpcError Account
  | 0, attempt => getAccount attempt
  | left + 1, attempt =>
      match getAccount attempt with
      | .ok account => .ok account
      | .error e => if e.transport then loadAccountFrom getAccount left (attempt + 1) else .error e

def loadAccount (a : Attempt Account Tx Sim Key Value) : Except RpcError Account :=
  loadAccountFrom a.getAccount a.fallbacks 0

/-- Give an exception its class. -/
def rethrow {E α : Type} (f : E → SorobanError) : Except E α → Except SorobanError α
  | .ok x => .ok x
  | .error e => .error (f e)

/-- Phases 1 to 4: the signed transaction, before anything is submitted. -/
def prepare (method : String) (a : Attempt Account Tx Sim Key Value) : Except SorobanError Tx := do
  let source ← rethrow (fun e => sorobanNetworkError method .build e.message) (loadAccount a)
  let tx ← rethrow (sorobanNetworkError method .build) (a.buildTransaction source)
  let sim ← rethrow (fun e => sorobanNetworkError method .simulate e.message)
    (a.simulateTransaction tx)
  match sim with
  | .error message => throw (sorobanSimulationError method message)
  | .success sim => do
      let assembled ← rethrow (fun e => sorobanSimulationError method
        ("Could not assemble simulated transaction: " ++ e)) (a.assembleTransaction tx sim)
      let key ← rethrow (sorobanSignError method) a.loadSigningKeypair
      match key with
      | none => throw (walletNotConnectedError method)
      | some key => rethrow (sorobanSignError method) (a.signWith key assembled)

def pollAttempts : Nat := 30

inductive ReceiptStatus where
  | success
  | failed
  | pending
  deriving DecidableEq, Repr

structure TxReceipt where
  method : String
  txHash : String
  ledger : Option Nat := none
  status : ReceiptStatus
  deriving DecidableEq

/-- What a call resolves or rejects with, the receipts it emitted, how often it
called `getTransaction` and whether the network accepted its transaction. -/
structure Outcome (Value : Type) where
  result : Except SorobanError (Option Value)
  receipts : List TxReceipt
  queries : Nat
  accepted : Bool

/-- Phase 6: ask until a final status, `left` more times. It returns the status,
with what a success carries, and the number of requests. -/
def poll (getTransaction : Nat → Option (GetReply Value)) : (left attempt : Nat) →
    Option (Option (Option Nat × Option Value)) × Nat
  | 0, attempt => (none, attempt)
  | left + 1, attempt =>
      match getTransaction attempt with
      | some (.success ledger returnValue) => (some (some (ledger, returnValue)), attempt + 1)
      | some .failed => (some none, attempt + 1)
      | some .notFound => poll getTransaction left (attempt + 1)
      | none => poll getTransaction left (attempt + 1)

/-- How the call ends, the one receipt it emits, and the number of requests. -/
structure Confirmation (Value : Type) where
  result : Except SorobanError (Option Value)
  receipt : TxReceipt
  queries : Nat

/-- The exits of the loop. -/
def conclude (method txHash : String) :
    Option (Option (Option Nat × Option Value)) × Nat → Confirmation Value
  | (some (some (ledger, returnValue)), queries) =>
      ⟨.ok returnValue, { method, txHash, ledger, status := .success }, queries⟩
  | (some none, queries) =>
      ⟨.error (sorobanOnChainError method txHash), { method, txHash, status := .failed }, queries⟩
  | (none, queries) =>
      ⟨.error (sorobanPollTimeoutError method txHash), { method, txHash, status := .pending },
        queries⟩

/-- Phase 6 as a whole. -/
def confirm (method txHash : String) (getTransaction : Nat → Option (GetReply Value)) :
    Confirmation Value := conclude method txHash (poll getTransaction pollAttempts 0)

/-- Phases 5 and 6 on a signed transaction. -/
def submit (method : String) (a : Attempt Account Tx Sim Key Value) (signed : Tx) : Outcome Value :=
  match a.sendTransaction signed with
  | .requestLost message => ⟨.error (sorobanNetworkError method .send message), [], 0, false⟩
  | .replyLost processed message =>
      ⟨.error (sorobanNetworkError method .send message), [], 0, processed.status.accepted⟩
  | .answered reply =>
      match reply.status with
      | .error => ⟨.error (sorobanSendError method (reply.detail.getD reply.status.text)
          (some reply.hash)), [], 0, reply.status.accepted⟩
      | .duplicate => ⟨.error (sorobanSendError method reply.status.text (some reply.hash)), [],
          0, reply.status.accepted⟩
      | .pending | .tryAgainLater =>
          let ended := confirm method reply.hash (a.getTransaction reply.hash)
          ⟨ended.result, [ended.receipt], ended.queries, reply.status.accepted⟩

def invokeContract (method : String) (a : Attempt Account Tx Sim Key Value) : Outcome Value :=
  match prepare method a with
  | .error e => ⟨.error e, [], 0, false⟩
  | .ok signed => submit method a signed

end SorobanClient
