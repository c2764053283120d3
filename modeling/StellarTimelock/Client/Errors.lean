import StellarTimelock.Client.Events
import Mathlib.Data.List.Infix

/-! The structured errors of the write pipeline, with the texts they show. -/
namespace SorobanClient

inductive Phase where
  | build
  | simulate
  | assemble
  | sign
  | send
  | poll
  deriving DecidableEq, Repr

def Phase.text : Phase → String
  | .build => "build"
  | .simulate => "simulate"
  | .assemble => "assemble"
  | .sign => "sign"
  | .send => "send"
  | .poll => "poll"

/-- The subclasses of `SorobanError`. -/
inductive ErrorClass where
  | walletNotConnected
  | network
  | simulation
  | sign
  | send
  | onChain
  | pollTimeout
  deriving DecidableEq, Repr

structure SorobanError where
  errorClass : ErrorClass
  phase : Phase
  method : String
  message : String
  userMessage : String
  retryable : Bool
  txHash : Option String := none
  cause : Option String := none
  deriving DecidableEq

/-- `text.includes(part)`. -/
def includes (text part : String) : Bool :=
  text.toList.tails.any fun rest => part.toList.isPrefixOf rest

/-- The number in a match of `Error\(Contract,\s*#(\d+)\)` at the head. -/
def codeAt (cs : List Char) : Option Nat :=
  let start := "Error(Contract,".toList
  if start.isPrefixOf cs then
    match (cs.drop start.length).dropWhile isWhiteSpace with
    | '#' :: rest =>
        let digits := rest.takeWhile Char.isDigit
        if digits ≠ [] ∧ (rest.dropWhile Char.isDigit).head? = some ')' then
          some (Nat.ofDigitChars 10 digits 0)
        else none
    | _ => none
  else none

/-- The contract's error code in a simulation error, if it names one. -/
def contractCode (raw : String) : Option Nat := raw.toList.tails.findSome? codeAt

/-- The text for an error code of the contract. -/
def codeMessage : Nat → Option String
  | 1 => some "Only the vault owner can perform this action."
  | 2 => some "This vault is still locked. You can withdraw after the unlock date."
  | 3 => some "This vault has already been withdrawn."
  | 4 => some "Locks can only be extended further out, not shortened."
  | 5 => some "Vault not found on-chain. It may have been created on a different network."
  | 6 => some "Invalid amount. Deposits must be positive XLM values."
  | 7 => some "Invalid unlock timestamp. The unlock must be in the future."
  | 8 => some "The contract is already initialised."
  | _ => none

/-- The text for a simulation error that carries a panic string. -/
def panicMessage (lower : String) : Option String :=
  if includes lower "unauthorized" || includes lower "not owner" || includes lower "notowner" then
    some "Only the vault owner can perform this action."
  else if includes lower "still locked" || includes lower "not unlocked" ||
      includes lower "stilllocked" then
    some "This vault is still locked. You can withdraw after the unlock date."
  else if includes lower "already withdrawn" || includes lower "alreadywithdrawn" then
    some "This vault has already been withdrawn."
  else if includes lower "cannot shorten" || includes lower "must extend" ||
      includes lower "shortenforbidden" then
    some "Locks can only be extended further out, not shortened."
  else if includes lower "insufficient" then
    some "Your wallet does not have enough XLM for this transaction."
  else if includes lower "not found" || includes lower "vaultnotfound" then
    some "Account or vault not found on Stellar. Fund your account via friendbot first."
  else none

/-- The text for a rejected preflight of which nothing else is known. -/
def preflightMessage (method : String) : String :=
  if method = "create_vault" then
    "Could not create vault on-chain. Double-check the inputs and your XLM balance."
  else if method = "deposit" then
    "Deposit rejected by the contract. Verify the amount and your wallet balance."
  else if method = "extend_lock" then
    "Extension rejected by the contract. The new unlock must be in the future."
  else if method = "withdraw" then
    "Withdrawal rejected by the contract. The vault may still be locked."
  else "Soroban preflight rejected this " ++ method ++ " call."

def humanizeSimulationError (method raw : String) : String :=
  (((contractCode raw).bind codeMessage).or (panicMessage raw.toLower)).getD (preflightMessage method)

def onchainFailureMessage (method : String) : String :=
  if method = "create_vault" then
    "The contract reverted while creating the vault. No XLM was moved."
  else if method = "deposit" then
    "The contract reverted on deposit. Your XLM is still in your wallet."
  else if method = "extend_lock" then
    "The contract reverted on extend. The lock was not changed."
  else if method = "withdraw" then
    "The contract reverted on withdraw. Funds remain in the vault."
  else "The contract reverted during execution."

def walletNotConnectedError (method : String) : SorobanError where
  errorClass := .walletNotConnected
  phase := .sign
  method := method
  message := "Wallet not connected — cannot sign Soroban transaction."
  userMessage := "Reconnect your wallet to sign on-chain transactions."
  retryable := false

def sorobanNetworkError (method : String) (phase : Phase) (detail : String) : SorobanError where
  errorClass := .network
  phase := phase
  method := method
  message := "Network error during " ++ phase.text ++ ": " ++ detail
  userMessage := "Couldn't reach the Stellar RPC. Check your connection and retry."
  retryable := true
  cause := some detail

def sorobanSimulationError (method simError : String) : SorobanError where
  errorClass := .simulation
  phase := .simulate
  method := method
  message := "Soroban preflight failed (" ++ method ++ "): " ++ simError
  userMessage := humanizeSimulationError method simError
  retryable := false

def sorobanSignError (method detail : String) : SorobanError where
  errorClass := .sign
  phase := .sign
  method := method
  message := "Signing failed for " ++ method ++ ": " ++ detail
  userMessage := "We couldn't sign this transaction with your wallet seed. Try reconnecting."
  retryable := false
  cause := some detail

def sorobanSendError (method status : String) (txHash : Option String) : SorobanError where
  errorClass := .send
  phase := .send
  method := method
  message := "sendTransaction (" ++ method ++ ") returned " ++ status
  userMessage :=
    if status = "DUPLICATE" then
      "This transaction was already submitted. Pull-to-refresh to see the result."
    else "The Stellar network rejected this transaction. Please retry."
  retryable := status ≠ "DUPLICATE"
  txHash := txHash

def sorobanOnChainError (method txHash : String) : SorobanError where
  errorClass := .onChain
  phase := .poll
  method := method
  message := "Soroban tx " ++ method ++ " failed on-chain (hash=" ++ txHash ++ ")."
  userMessage := onchainFailureMessage method
  retryable := false
  txHash := some txHash

def sorobanPollTimeoutError (method txHash : String) : SorobanError where
  errorClass := .pollTimeout
  phase := .poll
  method := method
  message := "Timed out polling getTransaction for " ++ method ++ " (hash=" ++ txHash ++ ")."
  userMessage :=
    "Your transaction is taking longer than expected. It may still confirm — check the explorer link."
  retryable := false
  txHash := some txHash

end SorobanClient
