import StellarTimelock.Client.Network

/-! `invokeContract` and `recheckTransaction` as scripts, suspended at their
every `await`. A script that has the system to itself does what the function
does. -/
namespace Writing

open SorobanClient XlmVault Script

variable {Address Account Sim Keypair Tx : Type} {contract : Address}

inductive Question (Address Tx : Type) where
  | getAccount (publicKey : Address) (attempt : Nat)
  | simulateTransaction (tx : Tx)
  | loadSigningKeypair
  /-- The request itself is in the journal, at this place. -/
  | sendTransaction (place : Nat)
  | getTransaction (hash : String) (attempt : Nat)

/-- Exceptions of RPC calls, of the device and of `fetch` are texts. -/
abbrev Answer (Account Sim : Type) : Question Address Tx → Type
  | .getAccount _ _ => Except RpcError Account
  | .simulateTransaction _ => Except RpcError (SimulateReply Sim)
  | .loadSigningKeypair => Except String (Option String)
  | .sendTransaction _ => Except String SendReply
  | .getTransaction _ _ => Except String (GetReply Reply)

/-- A function of the client that waits and may throw. -/
abbrev Async {Address : Type} (contract : Address) (Account Sim Tx Error Result : Type) : Type :=
  ExceptT Error (Script (Env contract Tx) (Question Address Tx) (Answer Account Sim) (Note Tx)) Result

section Questions

variable {Error : Type}

def getAccount (publicKey : Address) (attempt : Nat) :
    Async contract Account Sim Tx Error (Except RpcError Account) :=
  await (Question.getAccount publicKey attempt)

def simulateTransaction (tx : Tx) :
    Async contract Account Sim Tx Error (Except RpcError (SimulateReply Sim)) :=
  await (Question.simulateTransaction tx)

def loadSigningKeypair : Async contract Account Sim Tx Error (Except String (Option String)) :=
  await (Question.loadSigningKeypair)

def sendTransaction (signed : Tx) :
    Async contract Account Sim Tx Error (Except String SendReply) := do
  let place ← note (.sent signed)
  await (Question.sendTransaction place)

def getTransaction (hash : String) (attempt : Nat) :
    Async contract Account Sim Tx Error (Except String (GetReply Reply)) :=
  await (Question.getTransaction hash attempt)

def emitReceipt (receipt : TxReceipt) : Async contract Account Sim Tx Error Unit := do
  let _ ← note (.receipt receipt)

end Questions

/-- The candidates of `loadAccount`: `left` remain after the current one. -/
def loadAccountFrom (publicKey : Address) :
    (left attempt : Nat) → Async contract Account Sim Tx RpcError Account
  | 0, attempt => do
      let reply ← getAccount publicKey attempt
      ofResult reply
  | left + 1, attempt => do
      let reply ← getAccount publicKey attempt
      match reply with
      | .ok account => return account
      | .error e => if e.transport then loadAccountFrom publicKey left (attempt + 1) else throw e

/-- How many candidates there are besides the primary RPC. -/
def fallbacks (dep : EventFetch.Deployment) : Nat := (dep.rpcFallbacks.map List.length).getD 0

def loadAccount (publicKey : Address) : Async contract Account Sim Tx RpcError Account := do
  let dep := (← env).deployment
  loadAccountFrom publicKey (fallbacks dep) 0

variable (sdk : Sdk Address Account Sim Keypair Tx)

/-- A transaction of the time at which it is built. -/
def buildTransaction (source : Account) (params : Call Address) :
    Async contract Account Sim Tx String Tx := do
  let dep := (← env).deployment
  let now := (← env).now
  ofResult (sdk.buildTransaction source dep ⟨dep.contractId, params⟩ now)

def simulate (method : String) (tx : Tx) : Async contract Account Sim Tx SorobanError Sim := do
  let reply ← simulateTransaction tx
  match reply with
  | .error e => throw (sorobanNetworkError method .simulate e.message)
  | .ok (.error message) => throw (sorobanSimulationError method message)
  | .ok (.success sim) => return sim

/-- The request goes out, and a reply that is no rejection comes back. -/
def send (method : String) (signed : Tx) : Async contract Account Sim Tx SorobanError String := do
  let reply ← sendTransaction signed
  match reply with
  | .error message => throw (sorobanNetworkError method .send message)
  | .ok reply =>
      match reply.status with
      | .error => throw (sorobanSendError method (reply.detail.getD reply.status.text)
          (some reply.hash))
      | .duplicate => throw (sorobanSendError method reply.status.text (some reply.hash))
      | .pending | .tryAgainLater => return reply.hash

/-- Poll until a final status, `left` more times. -/
def pollFrom (method txHash : String) :
    (left attempt : Nat) → Async contract Account Sim Tx SorobanError (Option Reply)
  | 0, _ => do
      emitReceipt { method, txHash, status := .pending }
      throw (sorobanPollTimeoutError method txHash)
  | left + 1, attempt => do
      let got ← getTransaction txHash attempt
      match got with
      | .ok (.success ledger returnValue) => do
          emitReceipt { method, txHash, ledger, status := .success }
          return returnValue
      | .ok .failed => do
          emitReceipt { method, txHash, status := .failed }
          throw (sorobanOnChainError method txHash)
      | .ok .notFound | .error _ => pollFrom method txHash left (attempt + 1)

def signWith (secretSeed : String) (tx : Tx) : Except String Tx := do
  let signer ← sdk.fromSecret secretSeed
  sdk.sign signer tx

/-- Phases 1 to 4 from the account that was loaded. -/
def prepareWith (method : String) (params : Call Address) (source : Account) :
    Async contract Account Sim Tx SorobanError Tx := do
  let tx ← (buildTransaction sdk source params).adapt (sorobanNetworkError method .build)
  let sim ← simulate method tx
  let assembled ← (ofResult (sdk.assembleTransaction tx sim)).adapt fun e =>
    sorobanSimulationError method ("Could not assemble simulated transaction: " ++ e)
  let key ← loadSigningKeypair
  match key with
  | .error e => throw (sorobanSignError method e)
  | .ok none => throw (walletNotConnectedError method)
  | .ok (some secretSeed) =>
      (ofResult (signWith sdk secretSeed assembled)).adapt (sorobanSignError method)

def prepare (ownerPublicKey : Address) (method : String) (params : Call Address) :
    Async contract Account Sim Tx SorobanError Tx := do
  let source ← (loadAccount ownerPublicKey).adapt
    fun e => sorobanNetworkError method .build e.message
  prepareWith sdk method params source

/-- Phases 5 and 6. -/
def submit (method : String) (signed : Tx) :
    Async contract Account Sim Tx SorobanError (Option Reply) := do
  let txHash ← send method signed
  pollFrom method txHash pollAttempts 0

def invokeContract (ownerPublicKey : Address) (method : String) (params : Call Address) :
    Async contract Account Sim Tx SorobanError (Option Reply) := do
  let signed ← prepare sdk ownerPublicKey method params
  submit method signed

structure Rechecked where
  status : ReceiptStatus
  ledger : Option Nat := none
  deriving DecidableEq

def recheckTransaction (method txHash : String) :
    Async contract Account Sim Tx SorobanError Rechecked := do
  let got ← getTransaction txHash 0
  match got with
  | .error e => throw (sorobanNetworkError method .poll e)
  | .ok (.success ledger _) => do
      emitReceipt { method, txHash, ledger, status := .success }
      return { status := .success, ledger }
  | .ok .failed => do
      emitReceipt { method, txHash, status := .failed }
      return { status := .failed }
  | .ok .notFound => return { status := .pending }

inductive Request (Address : Type) where
  | invokeContract (ownerPublicKey : Address) (method : String) (params : Call Address)
  | recheckTransaction (method txHash : String)

inductive Result where
  | invoked (result : Except SorobanError (Option Reply))
  | rechecked (result : Except SorobanError Rechecked)

def body : Request Address →
    Script (Env contract Tx) (Question Address Tx) (Answer Account Sim) (Note Tx) Result
  | .invokeContract owner method params => do
      let result ← (invokeContract sdk owner method params).run
      return .invoked result
  | .recheckTransaction method txHash => do
      let result ← (recheckTransaction method txHash).run
      return .rechecked result

namespace Note

@[simp] def transaction : Note Tx → Option Tx
  | .sent tx => some tx
  | .receipt _ => none

@[simp] def emitted : Note Tx → Option TxReceipt
  | .receipt r => some r
  | .sent _ => none

end Note

def sent (log : List (Note Tx)) : List Tx := log.filterMap (·.transaction)

def receipts (log : List (Note Tx)) : List TxReceipt := log.filterMap (·.emitted)

section Logs

variable (log more : List (Note Tx)) (note : Note Tx)

@[simp] theorem receipts_nil : receipts ([] : List (Note Tx)) = [] := rfl

@[simp] theorem receipts_cons : receipts (note :: log) = note.emitted.toList ++ receipts log := by
  cases note <;> rfl

@[simp] theorem receipts_append : receipts (log ++ more) = receipts log ++ receipts more :=
  List.filterMap_append

end Logs

section Alone

variable (answers : (question : Question Address Tx) → Answer Account Sim question)

/-- What `invokeContract` depends on while nothing else happens: the deployment
and the clock stay, and the request has the next place in the journal. -/
def attemptOf (w : Session contract Tx) (owner : Address) (params : Call Address) :
    Attempt Account Tx Sim String Reply where
  fallbacks := fallbacks w.env.deployment
  getAccount attempt := answers (.getAccount owner attempt)
  buildTransaction source := sdk.buildTransaction source w.env.deployment
    ⟨w.env.deployment.contractId, params⟩ w.env.now
  simulateTransaction tx := answers (.simulateTransaction tx)
  assembleTransaction := sdk.assembleTransaction
  loadSigningKeypair := answers .loadSigningKeypair
  signWith := signWith sdk
  sendTransaction _ := match (answers (.sendTransaction w.journal.length) : Except String SendReply) with
    | .ok reply => .answered reply
    | .error message => .requestLost message
  getTransaction hash attempt :=
    (answers (.getTransaction hash attempt) : Except String (GetReply Reply)).toOption

variable {sdk answers} {w : Session contract Tx} {log : List (Note Tx)}

/-- The failover loop of a script, answered without delay, is the loop of the
function over the same answers. -/
theorem loadAccountFrom_alone (owner : Address) (left attempt : Nat) :
    alone answers w log (loadAccountFrom owner left attempt :
        Async contract Account Sim Tx RpcError Account).run =
      (w, log, SorobanClient.loadAccountFrom (fun n => answers (.getAccount owner n)) left
        attempt) := by
  induction left generalizing attempt with
  | zero => exact alone_bind_ok answers rfl
  | succ left ih =>
      refine (alone_bind_ok answers rfl).trans ?_
      rw [SorobanClient.loadAccountFrom]
      cases (answers (.getAccount owner attempt) : Except RpcError Account) with
      | ok account => rfl
      | error e =>
          by_cases hTransport : e.transport
          · simp only [hTransport, if_true]
            exact ih (attempt + 1)
          · simp only [hTransport, Bool.false_eq_true, if_false]
            rfl

theorem rethrow_eq_mapError {E : Type} (f : E → SorobanError) {α : Type} (x : Except E α) :
    rethrow f x = x.mapError f := by
  cases x <;> rfl

/-- Everything up to the signed transaction is what the function does with these
answers, and leaves no note. -/
theorem prepare_alone (owner : Address) (method : String) (params : Call Address) :
    alone answers w log (prepare sdk owner method params :
        Async contract Account Sim Tx SorobanError Tx).run =
      (w, log, SorobanClient.prepare method (attemptOf sdk answers w owner params)) := by
  have hAccount : alone answers w log (loadAccount owner :
      Async contract Account Sim Tx RpcError Account).run =
      (w, log, SorobanClient.loadAccount (attemptOf sdk answers w owner params)) :=
    (alone_bind_ok answers rfl).trans (loadAccountFrom_alone owner _ 0)
  unfold prepare SorobanClient.prepare
  simp only [rethrow_eq_mapError]
  refine alone_bind_quiet answers (alone_adapt answers hAccount) fun source => ?_
  refine alone_bind_quiet answers (alone_adapt answers rfl) fun tx => ?_
  -- The script asks and throws in one step; the function throws after it has asked.
  have hReply : (attemptOf sdk answers w owner params).simulateTransaction tx =
      answers (.simulateTransaction tx) := rfl
  rw [hReply]
  cases hSim : (answers (.simulateTransaction tx) : Except RpcError (SimulateReply Sim)) with
  | error e =>
      refine alone_bind_error answers ((alone_bind_ok answers rfl).trans ?_)
      rw [hSim]
      rfl
  | ok reply =>
      cases reply with
      | error message =>
          refine alone_bind_error answers ((alone_bind_ok answers rfl).trans ?_)
          rw [hSim]
          rfl
      | success sim =>
          have hSimulated : alone answers w log (simulate method tx :
              Async contract Account Sim Tx SorobanError Sim).run = (w, log, .ok sim) := by
            refine (alone_bind_ok answers rfl).trans ?_
            rw [hSim]
            rfl
          refine (alone_bind_ok answers hSimulated).trans ?_
          refine alone_bind_quiet answers (alone_adapt answers rfl) fun assembled => ?_
          have hKey : (attemptOf sdk answers w owner params).loadSigningKeypair =
              answers .loadSigningKeypair := rfl
          refine (alone_bind_ok answers rfl).trans ?_
          rw [hKey]
          rcases (answers .loadSigningKeypair : Except String (Option String)) with e | _ | seed
          · rfl
          · rfl
          · exact alone_adapt answers rfl

/-- The loop emits the receipt and ends as the function says. -/
theorem pollFrom_alone (method txHash : String) (left attempt : Nat) :
    alone answers w log (pollFrom method txHash left attempt :
        Async contract Account Sim Tx SorobanError (Option Reply)).run =
      let ended := conclude method txHash (poll (fun n =>
        (answers (.getTransaction txHash n)).toOption) left attempt)
      (w.tell (.receipt ended.receipt), log ++ [.receipt ended.receipt], ended.result) := by
  induction left generalizing attempt with
  | zero => rfl
  | succ left ih =>
      refine (alone_bind_ok answers rfl).trans ?_
      rw [poll]
      cases answers (.getTransaction txHash attempt) with
      | error message => exact ih (attempt + 1)
      | ok got =>
          cases got with
          | notFound => exact ih (attempt + 1)
          | success ledger returnValue => rfl
          | failed => rfl

/-- Phases 5 and 6: the answer to the request is the one to the submission. -/
theorem submit_alone (owner : Address) (method : String) (params : Call Address) (signed : Tx) :
    let outcome := SorobanClient.submit method (attemptOf sdk answers w owner params) signed
    let after := alone answers w log (submit method signed :
      Async contract Account Sim Tx SorobanError (Option Reply)).run
    after.2.2 = outcome.result ∧ receipts after.2.1 = receipts log ++ outcome.receipts := by
  have hAsk : alone answers w log (sendTransaction signed :
      Async contract Account Sim Tx SorobanError (Except String SendReply)).run =
      (w.tell (.sent signed), log ++ [.sent signed], .ok (answers (.sendTransaction w.journal.length))) :=
    rfl
  cases hReply : (answers (.sendTransaction w.journal.length) : Except String SendReply) with
  | error message =>
      have hLost : (attemptOf sdk answers w owner params).sendTransaction signed =
          .requestLost message := by
        simp only [attemptOf, hReply]
      have hSend : alone answers w log (send method signed :
          Async contract Account Sim Tx SorobanError String).run =
          (w.tell (.sent signed), log ++ [.sent signed],
            .error (sorobanNetworkError method .send message)) := by
        refine (alone_bind_ok answers hAsk).trans ?_
        rw [hReply]
        rfl
      rw [submit, alone_bind_error answers hSend]
      simp [SorobanClient.submit, hLost]
  | ok reply =>
      have hAnswered : (attemptOf sdk answers w owner params).sendTransaction signed =
          .answered reply := by
        simp only [attemptOf, hReply]
      -- A rejection ends the call; anything else is polled for.
      have hSend : alone answers w log (send method signed :
          Async contract Account Sim Tx SorobanError String).run =
          (w.tell (.sent signed), log ++ [.sent signed], match reply.status with
            | .error => .error (sorobanSendError method (reply.detail.getD reply.status.text)
                (some reply.hash))
            | .duplicate => .error (sorobanSendError method reply.status.text (some reply.hash))
            | .pending | .tryAgainLater => .ok reply.hash) := by
        refine (alone_bind_ok answers hAsk).trans ?_
        rw [hReply]
        obtain ⟨status, hash, detail⟩ := reply
        cases status with
        | error => rfl
        | duplicate => rfl
        | pending => rfl
        | tryAgainLater => rfl
      let ended := confirm method reply.hash
        ((attemptOf sdk answers w owner params).getTransaction reply.hash)
      have hPoll : alone answers (w.tell (.sent signed)) (log ++ [.sent signed])
          (pollFrom method reply.hash pollAttempts 0 :
            Async contract Account Sim Tx SorobanError (Option Reply)).run =
          ((w.tell (.sent signed)).tell (.receipt ended.receipt),
            log ++ [.sent signed] ++ [.receipt ended.receipt], ended.result) :=
        pollFrom_alone method reply.hash pollAttempts 0
      cases hStatus : reply.status with
      | error =>
          simp only [hStatus] at hSend
          rw [submit, alone_bind_error answers hSend]
          simp [SorobanClient.submit, hAnswered, hStatus]
      | duplicate =>
          simp only [hStatus] at hSend
          rw [submit, alone_bind_error answers hSend]
          simp [SorobanClient.submit, hAnswered, hStatus]
      | pending =>
          simp only [hStatus] at hSend
          rw [submit, alone_bind_ok answers hSend, hPoll]
          simp [SorobanClient.submit, hAnswered, hStatus, ended]
      | tryAgainLater =>
          simp only [hStatus] at hSend
          rw [submit, alone_bind_ok answers hSend, hPoll]
          simp [SorobanClient.submit, hAnswered, hStatus, ended]

variable (sdk answers w) in
/-- A call of `invokeContract` that has the system to itself resolves or rejects
as the function does, and emits its receipts. -/
theorem invokeContract_alone (owner : Address) (method : String) (params : Call Address) :
    let outcome := SorobanClient.invokeContract method (attemptOf sdk answers w owner params)
    let after := alone answers w [] (invokeContract sdk owner method params :
      Async contract Account Sim Tx SorobanError (Option Reply)).run
    after.2.2 = outcome.result ∧ receipts after.2.1 = outcome.receipts := by
  unfold invokeContract SorobanClient.invokeContract
  have hPrepare : alone answers w [] (prepare sdk owner method params :
      Async contract Account Sim Tx SorobanError Tx).run = _ := prepare_alone owner method params
  cases hSigned : SorobanClient.prepare method (attemptOf sdk answers w owner params) with
  | error e =>
      rw [hSigned] at hPrepare
      rw [alone_bind_error answers hPrepare]
      exact ⟨rfl, rfl⟩
  | ok signed =>
      rw [hSigned] at hPrepare
      rw [alone_bind_ok answers hPrepare]
      exact submit_alone owner method params signed

end Alone

end Writing
