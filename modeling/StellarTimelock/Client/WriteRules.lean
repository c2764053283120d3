import StellarTimelock.Client.WriteScripts

/-! What each part of the write pipeline promises, whatever follows it. -/
namespace Writing

open SorobanClient XlmVault Script

variable {Address Account Sim Keypair Tx : Type} {contract : Address} [DecidableEq Address]
  {sdk : Sdk Address Account Sim Keypair Tx} {here : String} {g : Genesis contract}

variable (sdk) in
/-- The ledger has a transaction with this hash, and it ended so. -/
def Env.Executed (env : Env contract Tx) (hash : String) (verdict : Verdict) : Prop :=
  ∃ e ∈ env.executions, sdk.hash e.tx = hash ∧ e.verdict = verdict

omit [DecidableEq Address] in
/-- What the ledger has executed, it has executed for good. -/
theorem Env.Executed.later {env env' : Env contract Tx} (hLater : env ≤ env') {hash : String}
    {verdict : Verdict} (h : env.Executed sdk hash verdict) : env'.Executed sdk hash verdict := by
  obtain ⟨e, he, hHash, hVerdict⟩ := h
  exact ⟨e, hLater.2.2.1.subset he, hHash, hVerdict⟩

variable (sdk) in
/-- A reply is the network's, and a status is what the ledger says. Nothing is
asked of the other answers, nor that there is an answer. -/
def Honest (w : Session contract Tx) :
    (question : Question Address Tx) → Answer Account Sim question → Prop
  | .sendTransaction place, answer => ∀ reply, answer = .ok reply → (place, reply) ∈ w.env.replies
  | .getTransaction hash _, answer =>
      (∀ ledger returnValue, answer = .ok (.success ledger returnValue) →
        w.env.Executed sdk hash (.success returnValue)) ∧
      (answer = .ok .failed → w.env.Executed sdk hash .failed)
  | .getAccount _ _, _ | .simulateTransaction _, _ | .loadSigningKeypair, _ => True

variable (sdk here g) in
/-- What a script may rely on when an answer comes. -/
def Trusted (w : Session contract Tx) (question : Question Address Tx)
    (answer : Answer Account Sim question) : Prop :=
  Sound sdk here g w ∧ Honest sdk w question answer

variable (sdk) in
/-- A final receipt is backed by the ledger. -/
def Backed (env : Env contract Tx) (r : TxReceipt) : Prop :=
  (r.status = .success → ∃ returnValue, env.Executed sdk r.txHash (.success returnValue)) ∧
  (r.status = .failed → env.Executed sdk r.txHash .failed)

variable (sdk) in
def Permitted (w : Session contract Tx) : Note Tx → Prop
  | .receipt r => Backed sdk w.env r
  | .sent _ => True

omit [DecidableEq Address] in
/-- So a receipt that was backed when it was emitted stays backed. -/
theorem Permitted.later {w w' : Session contract Tx} (note : Note Tx)
    (hLater : w ≤ w') (h : Permitted sdk w note) : Permitted sdk w' note := by
  cases note with
  | receipt r =>
      refine ⟨fun hStatus => ?_, fun hStatus => (h.2 hStatus).later hLater.1⟩
      obtain ⟨returnValue, hExecuted⟩ := h.1 hStatus
      exact ⟨returnValue, hExecuted.later hLater.1⟩
  | sent tx => trivial

/-- What holds when a part of the pipeline is over. -/
abbrev Post (contract : Address) (Tx Result : Type) : Type :=
  Session contract Tx → List (Note Tx) → Result → Prop

section Rules

variable {pause : List (Note Tx) → Prop} {Error Result : Type} {w : Session contract Tx}
  {log : List (Note Tx)}

variable (sdk here g pause) in
abbrev Promises (returns : Post contract Tx Result) (throws : Post contract Tx Error)
    (script : Async contract Account Sim Tx Error Result) (w : Session contract Tx)
    (log : List (Note Tx)) : Prop :=
  Ends (Trusted sdk here g) (Permitted sdk) pause returns throws script w log

/-- The rule for the first of the questions. Nothing is known of the answer, so
the rest has to hold for every reply, and in every later state of the session.
-/
theorem promises_getAccount {publicKey : Address} {attempt : Nat}
    {returns : Post contract Tx (Except RpcError Account)} {throws : Post contract Tx Error}
    (hPause : pause log) (h : ∀ w', w ≤ w' → ∀ reply, returns w' log reply) :
    Promises sdk here g pause returns throws
      (getAccount publicKey attempt : Async contract Account Sim Tx Error _) w log :=
  ⟨hPause, fun w' hLater reply _ => h w' hLater reply⟩

/-- The same of a simulation, whose reply decides nothing that a write promises.
-/
theorem promises_simulateTransaction {tx : Tx}
    {returns : Post contract Tx (Except RpcError (SimulateReply Sim))}
    {throws : Post contract Tx Error}
    (hPause : pause log) (h : ∀ w', w ≤ w' → ∀ reply, returns w' log reply) :
    Promises sdk here g pause returns throws
      (simulateTransaction tx : Async contract Account Sim Tx Error _) w log :=
  ⟨hPause, fun w' hLater reply _ => h w' hLater reply⟩

/-- The same of the prompt for the signing key. -/
theorem promises_loadSigningKeypair {returns : Post contract Tx (Except String (Option String))}
    {throws : Post contract Tx Error}
    (hPause : pause log) (h : ∀ w', w ≤ w' → ∀ reply, returns w' log reply) :
    Promises sdk here g pause returns throws
      (loadSigningKeypair : Async contract Account Sim Tx Error _) w log :=
  ⟨hPause, fun w' hLater reply _ => h w' hLater reply⟩

/-- The reply is to this transaction, whatever else has been sent. -/
theorem promises_sendTransaction {signed : Tx} {returns : Post contract Tx (Except String SendReply)}
    {throws : Post contract Tx Error} (hPause : pause (log ++ [.sent signed]))
    (hReply : ∀ w', w ≤ w' → ∀ reply : SendReply, reply.hash = sdk.hash signed →
      returns w' (log ++ [.sent signed]) (.ok reply))
    (hLost : ∀ w', w ≤ w' → ∀ message, returns w' (log ++ [.sent signed]) (.error message)) :
    Promises sdk here g pause returns throws
      (sendTransaction signed : Async contract Account Sim Tx Error _) w log := by
  refine ends_bind.mpr ⟨trivial, hPause, ?_⟩
  intro w' hLater answer hTrusted
  have hStart := (w.le_tell (.sent signed)).trans hLater
  cases hAnswer : (answer : Except String SendReply) with
  | error message => exact hLost w' hStart message
  | ok reply =>
      obtain ⟨tx, hAt, hHash⟩ := hTrusted.1.replies _ reply (hTrusted.2 reply hAnswer)
      have hOwn := getElem?_of_prefix hLater.2 (i := w.journal.length) List.getElem?_concat_length
      cases hAt.symm.trans hOwn
      exact hReply w' hStart reply hHash

/-- The answer about a transaction is honest: a success or a failure that it
reports is on the ledger when the rest goes on. Of a transaction that is not
found, nothing is known. -/
theorem promises_getTransaction {hash : String} {attempt : Nat}
    {returns : Post contract Tx (Except String (GetReply Reply))} {throws : Post contract Tx Error}
    (hPause : pause log)
    (hSuccess : ∀ w', w ≤ w' → ∀ ledger returnValue,
      w'.env.Executed sdk hash (.success returnValue) →
      returns w' log (.ok (.success ledger returnValue)))
    (hFailed : ∀ w', w ≤ w' → w'.env.Executed sdk hash .failed → returns w' log (.ok .failed))
    (hNotFound : ∀ w', w ≤ w' → returns w' log (.ok .notFound))
    (hError : ∀ w', w ≤ w' → ∀ message, returns w' log (.error message)) :
    Promises sdk here g pause returns throws
      (getTransaction hash attempt : Async contract Account Sim Tx Error _) w log := by
  refine ⟨hPause, ?_⟩
  intro w' hLater answer hTrusted
  cases hAnswer : (answer : Except String (GetReply Reply)) with
  | error message => exact hError w' hLater message
  | ok got =>
      cases got with
      | notFound => exact hNotFound w' hLater
      | success ledger returnValue =>
          exact hSuccess w' hLater ledger returnValue (hTrusted.2.1 ledger returnValue hAnswer)
      | failed => exact hFailed w' hLater (hTrusted.2.2 hAnswer)

/-- The failover loop over the account ends with an account or with the last
error, after any number of attempts and in any later state; the induction is on
the attempts that are left. -/
theorem promises_loadAccountFrom {publicKey : Address}
    {returns : Post contract Tx Account} {throws : Post contract Tx RpcError} (hPause : pause log)
    (hReturns : ∀ w', w ≤ w' → ∀ account, returns w' log account)
    (hThrows : ∀ w', w ≤ w' → ∀ e, throws w' log e) (left attempt : Nat) :
    Promises sdk here g pause returns throws
      (loadAccountFrom publicKey left attempt :
        Async contract Account Sim Tx RpcError _) w log := by
  induction left generalizing w attempt with
  | zero =>
      refine ends_bind.mpr (promises_getAccount hPause ?_)
      intro w' hLater reply
      cases reply with
      | ok account => exact hReturns w' hLater account
      | error e => exact hThrows w' hLater e
  | succ left ih =>
      refine ends_bind.mpr (promises_getAccount hPause ?_)
      intro w' hLater reply
      cases reply with
      | ok account => exact hReturns w' hLater account
      | error e =>
          simp only
          split_ifs with hTransport
          · exact ih (fun later hMore => hReturns later (hLater.trans hMore))
              (fun later hMore => hThrows later (hLater.trans hMore)) (attempt + 1)
          · exact hThrows w' hLater e

theorem promises_loadAccount {publicKey : Address}
    {returns : Post contract Tx Account} {throws : Post contract Tx RpcError} (hPause : pause log)
    (hReturns : ∀ w', w ≤ w' → ∀ account, returns w' log account)
    (hThrows : ∀ w', w ≤ w' → ∀ e, throws w' log e) :
    Promises sdk here g pause returns throws
      (loadAccount publicKey : Async contract Account Sim Tx RpcError _) w log :=
  ends_bind.mpr (promises_loadAccountFrom hPause hReturns hThrows _ _)

/-- A transaction that is built is for what was asked. -/
theorem promises_buildTransaction {source : Account} {params : Call Address}
    {returns : Post contract Tx Tx} {throws : Post contract Tx String}
    (hReturns : ∀ tx, (sdk.operation tx).params = params → returns w log tx)
    (hThrows : ∀ e, throws w log e) :
    Promises sdk here g pause returns throws
      (buildTransaction sdk source params : Async contract Account Sim Tx String _) w log := by
  refine ends_bind.mpr (ends_env.mpr (ends_bind.mpr (ends_env.mpr (ends_ofResult.mpr ?_))))
  cases hBuilt : sdk.buildTransaction source w.env.deployment ⟨w.env.deployment.contractId, params⟩
      w.env.now with
  | ok tx => exact hReturns tx (congrArg Operation.params (sdk.operation_build hBuilt))
  | error e => exact hThrows e

/-- A simulation that fails does so in its own phase, which is how a caller
knows that nothing was sent. -/
theorem promises_simulate {method : String} {tx : Tx}
    {returns : Post contract Tx Sim} {throws : Post contract Tx SorobanError}
    (hPause : pause log) (hReturns : ∀ w', w ≤ w' → ∀ sim, returns w' log sim)
    (hThrows : ∀ w', w ≤ w' → ∀ e : SorobanError, e.phase = .simulate → throws w' log e) :
    Promises sdk here g pause returns throws
      (simulate method tx : Async contract Account Sim Tx SorobanError _) w log := by
  refine ends_bind.mpr (promises_simulateTransaction hPause ?_)
  intro w' hLater reply
  cases reply with
  | error e => exact hThrows w' hLater _ rfl
  | ok reply =>
      cases reply with
      | error message => exact hThrows w' hLater _ rfl
      | success sim => exact hReturns w' hLater sim

/-- The submission of a signed transaction is noted before its reply is waited
for, so it is in the log however the reply fails; and it fails in its own phase.
-/
theorem promises_send {method : String} {signed : Tx} {returns : Post contract Tx String}
    {throws : Post contract Tx SorobanError} (hPause : pause (log ++ [.sent signed]))
    (hReturns : ∀ w', w ≤ w' → returns w' (log ++ [.sent signed]) (sdk.hash signed))
    (hThrows : ∀ w', w ≤ w' → ∀ e : SorobanError, e.phase = .send →
      throws w' (log ++ [.sent signed]) e) :
    Promises sdk here g pause returns throws
      (send method signed : Async contract Account Sim Tx SorobanError _) w log := by
  refine ends_bind.mpr (promises_sendTransaction hPause ?_ ?_)
  · intro w' hLater reply hHash
    obtain ⟨status, hash, detail⟩ := reply
    cases status with
    | error => exact hThrows w' hLater _ rfl
    | duplicate => exact hThrows w' hLater _ rfl
    | pending =>
        subst hHash
        exact hReturns w' hLater
    | tryAgainLater =>
        subst hHash
        exact hReturns w' hLater
  · exact fun w' hLater message => hThrows w' hLater _ rfl

/-- A receipt may be emitted if what the ledger and the network have said by now
backs it. -/
theorem promises_emitReceipt {receipt : TxReceipt} {returns : Post contract Tx Unit}
    {throws : Post contract Tx Error} (hBacked : Backed sdk w.env receipt)
    (h : returns (w.tell (.receipt receipt)) (log ++ [.receipt receipt]) ()) :
    Promises sdk here g pause returns throws
      (emitReceipt receipt : Async contract Account Sim Tx Error _) w log :=
  ends_bind.mpr ⟨hBacked, h⟩

/-- Polling ends with one receipt, and the ledger stands behind a final one. -/
theorem promises_pollFrom {method txHash : String} {returns : Post contract Tx (Option Reply)}
    {throws : Post contract Tx SorobanError} (hPause : pause log)
    (hSuccess : ∀ w', w ≤ w' → ∀ ledger returnValue,
      w'.env.Executed sdk txHash (.success returnValue) →
      returns w' (log ++ [.receipt { method, txHash, ledger, status := .success }]) returnValue)
    (hFailed : ∀ w', w ≤ w' → w'.env.Executed sdk txHash .failed →
      throws w' (log ++ [.receipt { method, txHash, status := .failed }])
        (sorobanOnChainError method txHash))
    (hPending : ∀ w', w ≤ w' → throws w' (log ++ [.receipt { method, txHash, status := .pending }])
      (sorobanPollTimeoutError method txHash)) (left attempt : Nat) :
    Promises sdk here g pause returns throws
      (pollFrom method txHash left attempt :
        Async contract Account Sim Tx SorobanError _) w log := by
  induction left generalizing w attempt with
  | zero =>
      refine ends_bind.mpr (promises_emitReceipt ⟨nofun, nofun⟩ ?_)
      exact hPending _ (w.le_tell _)
  | succ left ih =>
      have hAgain (w') (hLater : w ≤ w') := ih (w := w')
        (fun later hMore => hSuccess later (hLater.trans hMore))
        (fun later hMore => hFailed later (hLater.trans hMore))
        (fun later hMore => hPending later (hLater.trans hMore)) (attempt + 1)
      refine ends_bind.mpr (promises_getTransaction hPause ?_ ?_ ?_ ?_)
      · intro w' hLater ledger returnValue hExecuted
        refine ends_bind.mpr (promises_emitReceipt ⟨fun _ => ⟨returnValue, hExecuted⟩, nofun⟩ ?_)
        have hTell := w'.le_tell (.receipt { method, txHash, ledger, status := .success })
        exact hSuccess _ (hLater.trans hTell) ledger returnValue (hExecuted.later hTell.1)
      · intro w' hLater hExecuted
        refine ends_bind.mpr (promises_emitReceipt ⟨nofun, fun _ => hExecuted⟩ ?_)
        have hTell := w'.le_tell (.receipt { method, txHash, status := .failed })
        exact hFailed _ (hLater.trans hTell) (hExecuted.later hTell.1)
      · exact fun w' hLater => hAgain w' hLater
      · exact fun w' hLater message => hAgain w' hLater

omit [DecidableEq Address] in
/-- A transaction that is signed is for what it was built for. -/
theorem operation_signWith {secretSeed : String} {tx signed : Tx}
    (h : signWith sdk secretSeed tx = .ok signed) : sdk.operation signed = sdk.operation tx := by
  unfold signWith at h
  cases hSigner : sdk.fromSecret secretSeed with
  | error e =>
      rw [hSigner] at h
      cases h
  | ok signer =>
      rw [hSigner] at h
      exact sdk.operation_sign h

/-- Nothing is left behind before the transaction is sent, and the worst that
can happen until then is an error that says so. -/
theorem promises_prepare {owner : Address} {method : String} {params : Call Address}
    {returns : Post contract Tx Tx} {throws : Post contract Tx SorobanError} (hPause : pause log)
    (hReturns : ∀ w', w ≤ w' → ∀ signed, (sdk.operation signed).params = params →
      returns w' log signed)
    (hThrows : ∀ w', w ≤ w' → ∀ e : SorobanError, e.phase ≠ .send ∧ e.phase ≠ .poll →
      throws w' log e) :
    Promises sdk here g pause returns throws
      (prepare sdk owner method params : Async contract Account Sim Tx SorobanError _) w log := by
  refine ends_bind.mpr (ends_adapt.mpr (promises_loadAccount hPause ?_ ?_))
  · intro w₁ h₁ source
    unfold prepareWith
    refine ends_bind.mpr (ends_adapt.mpr (promises_buildTransaction ?_ ?_))
    · intro tx hBuilt
      refine ends_bind.mpr (promises_simulate hPause ?_ ?_)
      · intro w₂ h₂ sim
        refine ends_bind.mpr (ends_adapt.mpr (ends_ofResult.mpr ?_))
        cases hAssembled : sdk.assembleTransaction tx sim with
        | error e => exact hThrows w₂ (h₁.trans h₂) _ ⟨nofun, nofun⟩
        | ok assembled =>
            refine ends_bind.mpr (promises_loadSigningKeypair hPause ?_)
            intro w₃ h₃ key
            have hLater := (h₁.trans h₂).trans h₃
            rcases key with e | _ | secretSeed
            · exact hThrows w₃ hLater _ ⟨nofun, nofun⟩
            · exact hThrows w₃ hLater _ ⟨nofun, nofun⟩
            · refine ends_adapt.mpr (ends_ofResult.mpr ?_)
              cases hSigned : signWith sdk secretSeed assembled with
              | error e => exact hThrows w₃ hLater _ ⟨nofun, nofun⟩
              | ok signed =>
                  refine hReturns w₃ hLater signed ?_
                  rw [operation_signWith hSigned, sdk.operation_assemble hAssembled, hBuilt]
      · intro w₂ h₂ e hPhase
        refine hThrows w₂ (h₁.trans h₂) e ?_
        rw [hPhase]
        exact ⟨nofun, nofun⟩
    · exact fun e => hThrows w₁ h₁ _ ⟨nofun, nofun⟩
  · exact fun w₁ h₁ e => hThrows w₁ h₁ _ ⟨nofun, nofun⟩

end Rules

end Writing
