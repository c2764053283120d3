import StellarTimelock.Client.WriteRules

/-! A session of any number of writes and rechecks at once, over a network that
delays, loses and duplicates what it likes and a contract that others use as
well: how each call ends, and that what it says is so. -/
namespace Writing

open SorobanClient XlmVault Script Execution

variable {Address Account Sim Keypair Tx : Type} {contract : Address}
  {sdk : Sdk Address Account Sim Keypair Tx}

variable (sdk) in
/-- The ways in which `invokeContract` ends. -/
inductive InvokeEnds (method : String) (params : Call Address) (env : Env contract Tx)
    (log : List (Note Tx)) : Except SorobanError (Option Reply) → Prop where
  | unsent {e : SorobanError} (hSent : sent log = []) (hReceipts : receipts log = [])
      (hPhase : e.phase ≠ .send ∧ e.phase ≠ .poll) : InvokeEnds method params env log (.error e)
  | unconfirmed {e : SorobanError} {signed : Tx} (hSent : sent log = [signed])
      (hParams : (sdk.operation signed).params = params) (hReceipts : receipts log = [])
      (hPhase : e.phase = .send) : InvokeEnds method params env log (.error e)
  | success {signed : Tx} {ledger : Option Nat} {returnValue : Option Reply}
      (hSent : sent log = [signed]) (hParams : (sdk.operation signed).params = params)
      (hReceipts : receipts log =
        [{ method, txHash := sdk.hash signed, ledger, status := .success }])
      (hExecuted : env.Executed sdk (sdk.hash signed) (.success returnValue)) :
      InvokeEnds method params env log (.ok returnValue)
  | failed {signed : Tx} (hSent : sent log = [signed])
      (hParams : (sdk.operation signed).params = params)
      (hReceipts : receipts log = [{ method, txHash := sdk.hash signed, status := .failed }])
      (hExecuted : env.Executed sdk (sdk.hash signed) .failed) :
      InvokeEnds method params env log (.error (sorobanOnChainError method (sdk.hash signed)))
  | pending {signed : Tx} (hSent : sent log = [signed])
      (hParams : (sdk.operation signed).params = params)
      (hReceipts : receipts log = [{ method, txHash := sdk.hash signed, status := .pending }]) :
      InvokeEnds method params env log (.error (sorobanPollTimeoutError method (sdk.hash signed)))

/-- What is true of the end of an invocation stays true of any later
environment, since what the ledger has executed and what it has answered only
grow. -/
theorem InvokeEnds.later {method : String} {params : Call Address} {env env' : Env contract Tx}
    {log : List (Note Tx)} {result : Except SorobanError (Option Reply)}
    (hLater : env ≤ env') (h : InvokeEnds sdk method params env log result) :
    InvokeEnds sdk method params env' log result := by
  cases h with
  | unsent hSent hReceipts hPhase => exact .unsent hSent hReceipts hPhase
  | unconfirmed hSent hParams hReceipts hPhase => exact .unconfirmed hSent hParams hReceipts hPhase
  | success hSent hParams hReceipts hExecuted =>
      exact .success hSent hParams hReceipts (hExecuted.later hLater)
  | failed hSent hParams hReceipts hExecuted =>
      exact .failed hSent hParams hReceipts (hExecuted.later hLater)
  | pending hSent hParams hReceipts => exact .pending hSent hParams hReceipts

variable (sdk) in
/-- A call of `invokeContract` that waits has sent its transaction or none. -/
def InvokeWaits (params : Call Address) (log : List (Note Tx)) : Prop :=
  sent log = [] ∨ ∃ signed, sent log = [signed] ∧ (sdk.operation signed).params = params

/-- The ways in which `recheckTransaction` ends. -/
inductive RecheckEnds (sdk : Sdk Address Account Sim Keypair Tx) (method txHash : String)
    (env : Env contract Tx) (log : List (Note Tx)) : Except SorobanError Rechecked → Prop where
  | success {ledger : Option Nat} {returnValue : Option Reply}
      (hReceipts : receipts log = [{ method, txHash, ledger, status := .success }])
      (hExecuted : env.Executed sdk txHash (.success returnValue)) :
      RecheckEnds sdk method txHash env log (.ok { status := .success, ledger })
  | failed (hReceipts : receipts log = [{ method, txHash, status := .failed }])
      (hExecuted : env.Executed sdk txHash .failed) :
      RecheckEnds sdk method txHash env log (.ok { status := .failed })
  | pending (hReceipts : receipts log = []) :
      RecheckEnds sdk method txHash env log (.ok { status := .pending })
  | thrown {e : SorobanError} (hReceipts : receipts log = []) :
      RecheckEnds sdk method txHash env log (.error e)

theorem RecheckEnds.later {method txHash : String} {env env' : Env contract Tx}
    {log : List (Note Tx)} {result : Except SorobanError Rechecked} (hLater : env ≤ env')
    (h : RecheckEnds sdk method txHash env log result) :
    RecheckEnds sdk method txHash env' log result := by
  cases h with
  | success hReceipts hExecuted => exact .success hReceipts (hExecuted.later hLater)
  | failed hReceipts hExecuted => exact .failed hReceipts (hExecuted.later hLater)
  | pending hReceipts => exact .pending hReceipts
  | thrown hReceipts => exact .thrown hReceipts

variable (sdk) in
/-- What is known of a call that waits. -/
def Waits : Request Address → List (Note Tx) → Prop
  | .invokeContract _ _ params, log => InvokeWaits sdk params log
  | .recheckTransaction _ _, log => sent log = []

variable (sdk) in
/-- What is known of a call that has ended. -/
def EndsAs : Request Address → Session contract Tx → List (Note Tx) → Result → Prop
  | .invokeContract _ method params, w, log, .invoked result =>
      InvokeEnds sdk method params w.env log result
  | .recheckTransaction method txHash, w, log, .rechecked result =>
      sent log = [] ∧ RecheckEnds sdk method txHash w.env log result
  | .invokeContract _ _ _, _, _, .rechecked _ | .recheckTransaction _ _, _, _, .invoked _ => False

theorem EndsAs.later {request : Request Address} {w w' : Session contract Tx}
    {log : List (Note Tx)} {result : Result} (hLater : w ≤ w')
    (h : EndsAs sdk request w log result) : EndsAs sdk request w' log result := by
  cases request with
  | invokeContract owner method params =>
      cases result with
      | invoked result => exact InvokeEnds.later hLater.1 h
      | rechecked result => exact h
  | recheckTransaction method txHash =>
      cases result with
      | rechecked result => exact ⟨h.1, h.2.later hLater.1⟩
      | invoked result => exact h

variable [DecidableEq Address] {here : String} {g : Genesis contract}

/-! The promises. -/

/-- What `invokeContract` promises in a world whose answers can be trusted:
while it waits it has sent nothing or one transaction with the given parameters,
and both its results and its errors are true of what it sent. -/
theorem promises_invokeContract (w : Session contract Tx) (owner : Address) (method : String)
    (params : Call Address) :
    Promises sdk here g (InvokeWaits sdk params)
      (fun w log returnValue => InvokeEnds sdk method params w.env log (.ok returnValue))
      (fun w log e => InvokeEnds sdk method params w.env log (.error e))
      (invokeContract sdk owner method params : Async contract Account Sim Tx SorobanError _) w
      [] := by
  refine ends_bind.mpr (promises_prepare (.inl rfl) ?_ ?_)
  · intro w₁ _ signed hParams
    have hOne : sent [(.sent signed : Note Tx)] = [signed] := rfl
    have hEnd (r : TxReceipt) : sent [.sent signed, .receipt r] = [signed] ∧
        receipts [(.sent signed : Note Tx), .receipt r] = [r] := ⟨rfl, rfl⟩
    have hWaits : InvokeWaits sdk params [.sent signed] := .inr ⟨signed, hOne, hParams⟩
    refine ends_bind.mpr (promises_send hWaits ?_ ?_)
    · intro w₂ _
      refine promises_pollFrom hWaits ?_ ?_ ?_ pollAttempts 0
      · exact fun w₃ _ ledger returnValue hExecuted =>
          .success (hEnd _).1 hParams (hEnd _).2 hExecuted
      · exact fun w₃ _ hExecuted => .failed (hEnd _).1 hParams (hEnd _).2 hExecuted
      · exact fun w₃ _ => .pending (hEnd _).1 hParams (hEnd _).2
    · exact fun w₂ _ e hPhase => .unconfirmed hOne hParams rfl hPhase
  · exact fun w₁ _ e hPhase => .unsent rfl rfl hPhase

/-- What `recheckTransaction` promises: it sends nothing at all, and its verdict
is true of the transaction. -/
theorem promises_recheckTransaction (w : Session contract Tx) (method txHash : String) :
    Promises sdk here g (fun log => sent log = [])
      (fun w log rechecked => sent log = [] ∧
        RecheckEnds sdk method txHash w.env log (.ok rechecked))
      (fun w log e => sent log = [] ∧ RecheckEnds sdk method txHash w.env log (.error e))
      (recheckTransaction method txHash : Async contract Account Sim Tx SorobanError _) w [] := by
  refine ends_bind.mpr (promises_getTransaction rfl ?_ ?_ ?_ ?_)
  · intro w₁ _ ledger returnValue hExecuted
    refine ends_bind.mpr (promises_emitReceipt ⟨fun _ => ⟨returnValue, hExecuted⟩, nofun⟩ ?_)
    exact ⟨rfl, .success rfl hExecuted⟩
  · intro w₁ _ hExecuted
    refine ends_bind.mpr (promises_emitReceipt ⟨nofun, fun _ => hExecuted⟩ ?_)
    exact ⟨rfl, .failed rfl hExecuted⟩
  · exact fun w₁ _ => ⟨rfl, .pending rfl⟩
  · exact fun w₁ _ message => ⟨rfl, .thrown rfl⟩

/-- The body of every request keeps its promise, whichever of the two it calls.
-/
theorem meets_body (request : Request Address) (w : Session contract Tx) :
    Meets (Trusted sdk here g) (Permitted sdk) (Waits sdk request) (EndsAs sdk request)
      (body sdk request : Script (Env contract Tx) (Question Address Tx) (Answer Account Sim)
        (Note Tx) Result) w [] := by
  cases request with
  | invokeContract owner method params =>
      refine meets_bind.mpr (Meets.mono ?_ (promises_invokeContract w owner method params))
      intro w' log result h
      cases result with
      | ok returnValue => exact h
      | error e => exact h
  | recheckTransaction method txHash =>
      refine meets_bind.mpr (Meets.mono ?_ (promises_recheckTransaction w method txHash))
      intro w' log result h
      cases result with
      | ok rechecked => exact h
      | error e => exact h

/-! Whole sessions. -/

/-- Nothing has been sent yet; the contract may have any past. -/
def Env.fresh (deployment : EventFetch.Deployment) (now : Int) (run : List (Action contract)) :
    Env contract Tx := ⟨deployment, now, [], [], [], run⟩

/-- A call of a session. -/
abbrev Running (contract : Address) (Account Sim Tx : Type) : Type :=
  Script.Running (Env contract Tx) (Question Address Tx) (Answer Account Sim) (Note Tx)
    Result (Request Address)

abbrev State (contract : Address) (Account Sim Tx : Type) : Type :=
  Interleaving.System (Session contract Tx) (Running contract Account Sim Tx)

/-- What happens next: a call begins, a call is answered, or the environment
moves. -/
abbrev Happening (contract : Address) (Account Sim Tx : Type) : Type :=
  Interleaving.Action (Request Address)
    ((question : Question Address Tx) → Answer Account Sim question) (Event contract)

variable (sdk here g) in
def stepSession :
    State contract Account Sim Tx → Happening contract Account Sim Tx →
      State contract Account Sim Tx × Option Unit :=
  Interleaving.step (program (body sdk) (event sdk here g))

variable (sdk here g) in
/-- A session in which every answer is honest. -/
def HonestSession (env : Env contract Tx) (as : List (Happening contract Account Sim Tx)) : Prop :=
  Along (stepSession sdk here g) (Fair (Honest sdk) fun _ _ => True) ⟨⟨env, []⟩, []⟩ as

variable (sdk here g) in
def session (env : Env contract Tx) (as : List (Happening contract Account Sim Tx)) :
    State contract Account Sim Tx := final (stepSession sdk here g) ⟨⟨env, []⟩, []⟩ as

section Sessions

variable {deployment : EventFetch.Deployment} {now : Int} {past : List (Action contract)}
  {as : List (Happening contract Account Sim Tx)}

/-- In every honest session the journal is sound, and each answer that a call is
given can be trusted at the moment it comes. -/
theorem session_sound (hHonest : HonestSession sdk here g (.fresh deployment now past) as) :
    Sound sdk here g (session sdk here g (.fresh deployment now past) as).shared ∧
      Along (stepSession sdk here g) (Fair (Trusted sdk here g) fun _ _ => True)
        ⟨⟨.fresh deployment now past, []⟩, []⟩ as :=
  fair_invariant (fun _ note h => h.tell note) (fun _ e _ h => h.event e)
    (sound_initial rfl rfl rfl) hHonest

/-- Every call of a session stands to its promise. -/
theorem session_stands (hHonest : HonestSession sdk here g (.fresh deployment now past) as)
    {l : Running contract Account Sim Tx}
    (hl : l ∈ (session sdk here g (.fresh deployment now past) as).calls) :
    Stands (Trusted sdk here g) (Permitted sdk) (Waits sdk) (EndsAs sdk)
      (session sdk here g (.fresh deployment now past) as).shared l :=
  stands_interleaved (fun w e _ => le_event w e) (fun _ _ note hLater h => h.later note hLater)
    (fun _ _ _ _ _ hLater h => h.later hLater) meets_body (session_sound hHonest).2 hl

/-- Hence a call of an honest session that is done has ended as its request
should. -/
theorem ends_of_done (hHonest : HonestSession sdk here g (.fresh deployment now past) as)
    {l : Running contract Account Sim Tx}
    (hl : l ∈ (session sdk here g (.fresh deployment now past) as).calls) {result : Result}
    (hDone : l.script = .done result) :
    EndsAs sdk l.call (session sdk here g (.fresh deployment now past) as).shared l.log result := by
  have hMeets := (session_stands hHonest hl).meets
  rw [hDone] at hMeets
  exact hMeets

/-- What is in the journal, some call has written. -/
theorem written_by {as : List (Happening contract Account Sim Tx)}
    {deployment : EventFetch.Deployment} {now : Int} {past : List (Action contract)}
    {note : Note Tx}
    (h : note ∈ (session sdk here g (.fresh deployment now past) as).shared.journal) :
    ∃ l ∈ (session sdk here g (.fresh deployment now past) as).calls, note ∈ l.log :=
  List.mem_flatMap.mp ((journal_perm _ as).mem_iff.mp h)

/-! What the ledger and the contract have of a transaction. -/

variable (sdk g) in
/-- The contract has run the transaction with this hash, a call with these
parameters, at this place of its run and with this outcome. -/
structure Env.Ran (env : Env contract Tx) (hash : String) (params : Call Address)
    (outcome : Except Failure Reply) (place : Nat) : Prop where
  entry : ∃ e ∈ env.executions, sdk.hash e.tx = hash ∧ e.place = some place
  invoked : ∃ auth client, env.run[place]? = some (.invoke auth client params)
  outcome : env.resultAt g place = some outcome

section Ledger

variable {w : Session contract Tx}

/-- A transaction has one entry, so it ran in one place at most. -/
theorem Sound.ran_once (h : Sound sdk here g w) {hash : String} {params params' : Call Address}
    {outcome outcome' : Except Failure Reply} {place place' : Nat}
    (hRan : w.env.Ran sdk g hash params outcome place)
    (hRan' : w.env.Ran sdk g hash params' outcome' place') : place = place' := by
  obtain ⟨e, he, hHash, hPlace⟩ := hRan.entry
  obtain ⟨e', he', hHash', hPlace'⟩ := hRan'.entry
  cases List.inj_on_of_nodup_map h.once he he' (hHash.trans hHash'.symm)
  exact Option.some.inj (hPlace.symm.trans hPlace')

/-- A place of the run is the place of one transaction. -/
theorem Sound.ran_apart (h : Sound sdk here g w) {hash hash' : String}
    {params params' : Call Address} {outcome outcome' : Except Failure Reply} {place : Nat}
    (hRan : w.env.Ran sdk g hash params outcome place)
    (hRan' : w.env.Ran sdk g hash' params' outcome' place) : hash = hash' := by
  obtain ⟨e, he, hHash, hPlace⟩ := hRan.entry
  obtain ⟨e', he', hHash', hPlace'⟩ := hRan'.entry
  cases h.apart e he e' he' place hPlace hPlace'
  exact hHash.symm.trans hHash'

/-- What is on the ledger as a success of this contract has run, with the reply
that is told. -/
theorem Sound.ran_of_success (h : Sound sdk here g w) {signed : Tx} {returnValue : Option Reply}
    (hHere : (sdk.operation signed).contractId = here)
    (hExecuted : w.env.Executed sdk (sdk.hash signed) (.success returnValue)) :
    ∃ reply place, returnValue = some reply ∧
      w.env.Ran sdk g (sdk.hash signed) (sdk.operation signed).params (.ok reply) place := by
  obtain ⟨e, he, hHash, hVerdict⟩ := hExecuted
  have hOperation := sdk.operation_of_hash hHash
  cases hPlace : e.place with
  | none =>
      rw [h.unplaced e he hPlace (hOperation ▸ hHere)] at hVerdict
      cases hVerdict
  | some place =>
      obtain ⟨-, hRun, hResult⟩ := h.placed e he place hPlace
      rw [hVerdict] at hResult
      obtain ⟨reply, hOutcome, hReply⟩ := verdictOf_success hResult.symm
      exact ⟨reply, place, hReply, ⟨e, he, hHash, hPlace⟩, hOperation ▸ hRun, hOutcome⟩

/-- What is on the ledger as a failure has changed nothing where it ran. -/
theorem Sound.error_of_failed (h : Sound sdk here g w) {hash : String} {params : Call Address}
    {outcome : Except Failure Reply} {place : Nat} (hExecuted : w.env.Executed sdk hash .failed)
    (hRan : w.env.Ran sdk g hash params outcome place) : ∃ failure, outcome = .error failure := by
  obtain ⟨e, he, hHash, hVerdict⟩ := hExecuted
  obtain ⟨e', he', hHash', hPlace⟩ := hRan.entry
  cases List.inj_on_of_nodup_map h.once he he' (hHash.trans hHash'.symm)
  obtain ⟨-, -, hResult⟩ := h.placed e he place hPlace
  rw [hVerdict, hRan.outcome] at hResult
  cases outcome with
  | error failure => exact ⟨failure, rfl⟩
  | ok reply => cases hResult

end Ledger

variable (sdk here g) in
/-- What a session's writes and the contract's run have to do with each other.
A write that resolves has been run exactly once, with the reply that it resolves
with; one that reports a failure on the ledger, or no submission, has not
changed the contract; and nothing runs for a session that its writes have not
sent. -/
structure ExactlyOnce (s : State contract Account Sim Tx) : Prop where
  asked : ∀ l ∈ s.calls, ∀ owner method params, l.call = .invokeContract owner method params →
    (sent l.log).length ≤ 1 ∧ ∀ tx ∈ sent l.log, (sdk.operation tx).params = params
  resolved : ∀ l ∈ s.calls, ∀ owner method params returnValue,
    l.call = .invokeContract owner method params → l.script = .done (.invoked (.ok returnValue)) →
    ∃ signed, sent l.log = [signed] ∧ ((sdk.operation signed).contractId = here →
      ∃ reply place, returnValue = some reply ∧
        s.shared.env.Ran sdk g (sdk.hash signed) params (.ok reply) place ∧
        ∀ params' outcome place', s.shared.env.Ran sdk g (sdk.hash signed) params' outcome place' →
          place' = place)
  failed : ∀ l ∈ s.calls, ∀ owner method params hash,
    l.call = .invokeContract owner method params →
    l.script = .done (.invoked (.error (sorobanOnChainError method hash))) →
    (sent l.log).map sdk.hash = [hash] ∧ ∀ params' outcome place,
      s.shared.env.Ran sdk g hash params' outcome place → ∃ failure, outcome = .error failure
  unsent : ∀ l ∈ s.calls, ∀ owner method params e, l.call = .invokeContract owner method params →
    l.script = .done (.invoked (.error e)) → e.phase ≠ .send → e.phase ≠ .poll → sent l.log = []
  owned : ∀ e ∈ s.shared.env.executions, ∃ l ∈ s.calls, e.tx ∈ sent l.log
  apart : ∀ hash hash' params params' outcome outcome' place,
    s.shared.env.Ran sdk g hash params outcome place →
    s.shared.env.Ran sdk g hash' params' outcome' place → hash = hash'

omit [DecidableEq Address] in
/-- Before its end and at it, a call has sent one transaction at most, for what
it was asked. -/
theorem sent_asked {honest : Session contract Tx → (question : Question Address Tx) →
      Answer Account Sim question → Prop} {permits : Session contract Tx → Note Tx → Prop}
    {w : Session contract Tx} {l : Running contract Account Sim Tx} {owner : Address}
    {method : String} {params : Call Address} (hCall : l.call = .invokeContract owner method params)
    (h : Stands honest permits (Waits sdk) (EndsAs sdk) w l) :
    (sent l.log).length ≤ 1 ∧ ∀ tx ∈ sent l.log, (sdk.operation tx).params = params := by
  have hSome : InvokeWaits sdk params l.log := by
    obtain ⟨call, log, script⟩ := l
    cases hCall
    cases script with
    | read next => exact h.waits.elim
    | tell note next => exact h.waits.elim
    | ask question next => exact h.meets.1
    | done result =>
        have hEnds : EndsAs sdk (.invokeContract owner method params) w log result := h.meets
        cases result with
        | rechecked result => exact hEnds.elim
        | invoked result =>
            have hInvoke : InvokeEnds sdk method params w.env log result := hEnds
            cases hInvoke with
            | unsent hSent => exact .inl hSent
            | unconfirmed hSent hParams => exact .inr ⟨_, hSent, hParams⟩
            | success hSent hParams => exact .inr ⟨_, hSent, hParams⟩
            | failed hSent hParams => exact .inr ⟨_, hSent, hParams⟩
            | pending hSent hParams => exact .inr ⟨_, hSent, hParams⟩
  rcases hSome with hNone | ⟨signed, hOne, hParams⟩
  · simp [hNone]
  · simp [hOne, hParams]

/-- In every session with honest answers, whatever the network delays, loses and
repeats and whoever else uses the contract, writes run exactly once. -/
theorem writes_exactly_once (deployment : EventFetch.Deployment) (now : Int)
    (past : List (Action contract)) (as : List (Happening contract Account Sim Tx))
    (hHonest : HonestSession sdk here g (.fresh deployment now past) as) :
    ExactlyOnce sdk here g (session sdk here g (.fresh deployment now past) as) := by
  have hSound := (session_sound hHonest).1
  have hEnds {l : Running contract Account Sim Tx}
      (hl : l ∈ (session sdk here g (.fresh deployment now past) as).calls) {owner : Address}
      {method : String} {params : Call Address} {result : Except SorobanError (Option Reply)}
      (hCall : l.call = .invokeContract owner method params)
      (hDone : l.script = .done (.invoked result)) :
      InvokeEnds sdk method params (session sdk here g (.fresh deployment now past) as).shared.env
        l.log result := by
    have hEnd := ends_of_done hHonest hl hDone
    rw [hCall] at hEnd
    exact hEnd
  constructor
  · exact fun l hl owner method params hCall => sent_asked hCall (session_stands hHonest hl)
  · intro l hl owner method params returnValue hCall hDone
    cases hEnds hl hCall hDone with
    | success hSent hParams _ hExecuted =>
        refine ⟨_, hSent, fun hHere => ?_⟩
        obtain ⟨reply, place, hReply, hRan⟩ := hSound.ran_of_success hHere hExecuted
        rw [hParams] at hRan
        exact ⟨reply, place, hReply, hRan, fun _ _ _ hRan' => hSound.ran_once hRan' hRan⟩
  · intro l hl owner method params hash hCall hDone
    have hEnd := hEnds hl hCall hDone
    generalize hResult : (.error (sorobanOnChainError method hash) :
      Except SorobanError (Option Reply)) = result at hEnd
    cases hEnd with
    | unsent _ _ hPhase =>
        cases hResult
        exact absurd rfl hPhase.2
    | unconfirmed _ _ _ hPhase =>
        cases hResult
        cases hPhase
    | success => cases hResult
    | failed hSent hParams _ hExecuted =>
        have hHash := congrArg SorobanError.txHash (Except.error.inj hResult)
        cases hHash
        refine ⟨by rw [hSent]; rfl, ?_⟩
        exact fun _ _ _ hRan => hSound.error_of_failed hExecuted hRan
    | pending =>
        cases congrArg SorobanError.errorClass (Except.error.inj hResult)
  · intro l hl owner method params e hCall hDone hSend hPoll
    cases hEnds hl hCall hDone with
    | unsent hSent => exact hSent
    | unconfirmed _ _ _ hPhase => exact absurd hPhase hSend
    | failed => exact absurd rfl hPoll
    | pending => exact absurd rfl hPoll
  · intro e he
    have hJournal := hSound.accepted e.tx (hSound.executed e he)
    obtain ⟨l, hl, hLog⟩ := written_by hJournal
    exact ⟨l, hl, List.mem_filterMap.mpr ⟨_, hLog, rfl⟩⟩
  · exact fun _ _ _ _ _ _ _ hRan hRan' => hSound.ran_apart hRan hRan'

/-- Every final receipt of a session, of a write or of a recheck, says what the
ledger says; so no two receipts contradict each other, and a success of the
contract has been run by it. -/
theorem receipts_truthful (deployment : EventFetch.Deployment) (now : Int)
    (past : List (Action contract)) (as : List (Happening contract Account Sim Tx))
    (hHonest : HonestSession sdk here g (.fresh deployment now past) as) :
    let s := session sdk here g (.fresh deployment now past) as
    ∀ r ∈ receipts s.shared.journal,
      (r.status = .success → ∃ returnValue,
        s.shared.env.Executed sdk r.txHash (.success returnValue)) ∧
      (r.status = .failed → s.shared.env.Executed sdk r.txHash .failed) ∧
      (∀ r' ∈ receipts s.shared.journal, r'.txHash = r.txHash → r.status = .success →
        r'.status ≠ .failed) ∧
      ∀ tx, sdk.hash tx = r.txHash → (sdk.operation tx).contractId = here → r.status = .success →
        ∃ reply place, s.shared.env.Ran sdk g r.txHash (sdk.operation tx).params (.ok reply)
          place := by
  intro s r hr
  have hSound : Sound sdk here g s.shared := (session_sound hHonest).1
  have hBacked {r : TxReceipt} (hr : r ∈ receipts s.shared.journal) :
      Backed sdk s.shared.env r := by
    obtain ⟨note, hNote, hEmitted⟩ := List.mem_filterMap.mp hr
    obtain ⟨l, hl, hLog⟩ := written_by hNote
    have hPermitted := (session_stands hHonest hl).written note hLog
    cases note with
    | sent tx => cases hEmitted
    | receipt emitted =>
        cases hEmitted
        exact hPermitted
  refine ⟨(hBacked hr).1, (hBacked hr).2, ?_, ?_⟩
  · intro r' hr' hHash hSuccess hFailed
    obtain ⟨returnValue, e, he, hTx, hVerdict⟩ := (hBacked hr).1 hSuccess
    obtain ⟨e', he', hTx', hVerdict'⟩ := (hBacked hr').2 hFailed
    cases List.inj_on_of_nodup_map hSound.once he he' (hTx.trans (hHash.symm.trans hTx'.symm))
    cases hVerdict.symm.trans hVerdict'
  · intro tx hHash hHere hSuccess
    obtain ⟨returnValue, hExecuted⟩ := (hBacked hr).1 hSuccess
    rw [← hHash] at hExecuted ⊢
    obtain ⟨reply, place, -, hRan⟩ := hSound.ran_of_success hHere hExecuted
    exact ⟨reply, place, hRan⟩

end Sessions

/-! A session of address 7 with the contract of the first sample run. -/

section Sample

def topUp : Call Nat := .deposit 7 0 ⟨41, by decide, by decide⟩

def early : Call Nat := .withdraw 7 0

/-- A library that knows two transactions. -/
def twoTransactions : Sdk Nat Unit Unit Unit Bool where
  buildTransaction _ _ operation _ :=
    if operation = ⟨"VAULT", topUp⟩ then .ok true
    else if operation = ⟨"VAULT", early⟩ then .ok false
    else .error "no such transaction"
  assembleTransaction tx _ := .ok tx
  fromSecret _ := .ok ()
  sign _ tx := .ok tx
  hash tx := if tx then "aa" else "bb"
  operation tx := if tx then ⟨"VAULT", topUp⟩ else ⟨"VAULT", early⟩
  operation_build := by
    intro account deployment operation now tx h
    split_ifs at h with hTopUp hEarly
    · cases h
      exact hTopUp.symm
    · cases h
      exact hEarly.symm
  operation_assemble := by
    intro tx sim assembled h
    cases h
    rfl
  operation_sign := by
    intro keypair tx signed h
    cases h
    rfl
  operation_of_hash := by
    intro tx tx' h
    cases tx <;> cases tx' <;> simp at h ⊢

/-- Everything works, and no transaction is known. -/
def ready : (question : Question Nat Bool) → Answer Unit Unit question
  | .getAccount _ _ => .ok ()
  | .simulateTransaction _ => .ok (.success ())
  | .loadSigningKeypair => .ok (some "S")
  | .sendTransaction _ => .error "timeout"
  | .getTransaction _ _ => .ok .notFound

/-- The reply to the request at a place arrives. -/
def delivered (place : Nat) (reply : SendReply) :
    (question : Question Nat Bool) → Answer Unit Unit question
  | .sendTransaction other => if other = place then .ok reply else .error "timeout"
  | .getAccount _ _ => .ok ()
  | .simulateTransaction _ => .ok (.success ())
  | .loadSigningKeypair => .ok (some "S")
  | .getTransaction _ _ => .ok .notFound

/-- The status of a transaction is told. -/
def told (hash : String) (status : GetReply Reply) :
    (question : Question Nat Bool) → Answer Unit Unit question
  | .getTransaction other _ => if other = hash then .ok status else .ok .notFound
  | .getAccount _ _ => .ok ()
  | .simulateTransaction _ => .ok (.success ())
  | .loadSigningKeypair => .ok (some "S")
  | .sendTransaction _ => .error "timeout"

/-- A deposit and a withdrawal that comes too early are written at once. The
network repeats the deposit's request, runs the withdrawal first, and its
failure is asked for again. -/
def twoWrites : List (Happening (0 : Nat) Unit Unit Bool) :=
  [.start (.invokeContract 7 "deposit" topUp), .start (.invokeContract 7 "withdraw" early),
    .resume 0 ready, .resume 1 ready, .resume 0 ready, .resume 1 ready, .resume 0 ready,
    .resume 1 ready, .event (.arrive 1 .accept), .event (.arrive 0 .accept),
    .event (.arrive 0 .accept), .resume 0 (delivered 0 ⟨.pending, "aa", none⟩),
    .resume 1 (delivered 1 ⟨.pending, "bb", none⟩), .event (.execute 0 everyone willing),
    .resume 0 ready, .event (.execute 1 everyone willing), .event (.execute 1 everyone willing),
    .resume 1 (told "bb" .failed),
    .resume 0 (told "aa" (.success (some 9) (some .unit))),
    .start (.recheckTransaction "withdraw" "bb"), .resume 2 (told "bb" .failed)]

/-- The answers of `ready` claim nothing about the ledger, so they are honest in
any world. -/
theorem honest_ready (w : Session (0 : Nat) Bool) (question : Question Nat Bool) :
    Honest twoTransactions w question (ready question) := by
  cases question with
  | getAccount publicKey attempt => trivial
  | simulateTransaction tx => trivial
  | loadSigningKeypair => trivial
  | sendTransaction place => exact nofun
  | getTransaction hash attempt => exact ⟨fun _ _ h => (by cases h), fun h => (by cases h)⟩

/-- Answering a submission with a reply that was given to it is honest. -/
theorem honest_delivered {w : Session (0 : Nat) Bool} {place : Nat} {reply : SendReply}
    (h : (place, reply) ∈ w.env.replies) (question : Question Nat Bool) :
    Honest twoTransactions w question (delivered place reply question) := by
  cases question with
  | getAccount publicKey attempt => trivial
  | simulateTransaction tx => trivial
  | loadSigningKeypair => trivial
  | getTransaction hash attempt => exact ⟨fun _ _ h => (by cases h), fun h => (by cases h)⟩
  | sendTransaction other =>
      intro answer hAnswer
      simp only [delivered] at hAnswer
      split_ifs at hAnswer with hPlace
      · cases hAnswer
        exact hPlace ▸ h

/-- Telling the status of a transaction is honest if the ledger has executed the
transaction with this outcome. -/
theorem honest_told {w : Session (0 : Nat) Bool} {hash : String} {status : GetReply Reply}
    (hSuccess : ∀ ledger returnValue, status = .success ledger returnValue →
      w.env.Executed twoTransactions hash (.success returnValue))
    (hFailed : status = .failed → w.env.Executed twoTransactions hash .failed)
    (question : Question Nat Bool) :
    Honest twoTransactions w question (told hash status question) := by
  cases question with
  | getAccount publicKey attempt => trivial
  | simulateTransaction tx => trivial
  | loadSigningKeypair => trivial
  | sendTransaction place => exact nofun
  | getTransaction other attempt =>
      simp only [Honest, told]
      split_ifs with hHash
      · subst hHash
        exact ⟨fun ledger returnValue h => hSuccess ledger returnValue (Except.ok.inj h),
          fun h => hFailed (Except.ok.inj h)⟩
      · exact ⟨fun _ _ h => (by cases h), fun h => (by cases h)⟩

/-- Every answer of `twoWrites` is honest, so the theorems on honest sessions
apply to it. -/
theorem twoWrites_honest : HonestSession twoTransactions "VAULT" sampleGenesis
    (.fresh ⟨"VAULT", none⟩ 0 sampleRun) twoWrites := by
  have hFair {s : State (0 : Nat) Unit Unit Bool} {number : Nat}
      {answers : (question : Question Nat Bool) → Answer Unit Unit question}
      (h : ∀ question, Honest twoTransactions s.shared question (answers question)) :
      Fair (Honest twoTransactions) (fun _ (_ : Event (0 : Nat)) => True) s
        (.resume number answers) := fun _ question _ _ _ => h question
  have hNever {w : Session (0 : Nat) Bool} {hash : String} (ledger : Option Nat)
      (returnValue : Option Reply) (h : (GetReply.failed : GetReply Reply) =
        .success ledger returnValue) :
      w.env.Executed twoTransactions hash (.success returnValue) := by cases h
  refine ⟨trivial, trivial, hFair (honest_ready _), hFair (honest_ready _),
    hFair (honest_ready _), hFair (honest_ready _), hFair (honest_ready _),
    hFair (honest_ready _), trivial, trivial, trivial, hFair (honest_delivered ?_),
    hFair (honest_delivered ?_), trivial, hFair (honest_ready _), trivial, trivial,
    hFair (honest_told hNever fun _ => ?_), hFair (honest_told (fun _ _ h => ?_) (fun h => by cases h)),
    trivial, hFair (honest_told hNever fun _ => ?_), trivial⟩
  · decide
  · decide
  · unfold Env.Executed
    decide
  · cases h
    unfold Env.Executed
    decide
  · unfold Env.Executed
    decide

/-- The deposit has run once, although its request came twice. -/
theorem writes_exactly_once_twoWrites :
    let s := session twoTransactions "VAULT" sampleGenesis (.fresh ⟨"VAULT", none⟩ 0 sampleRun)
      twoWrites
    ExactlyOnce twoTransactions "VAULT" sampleGenesis s ∧
      ((s.shared.env.world sampleGenesis).storage.vault 0).map (·.balance.val) = some 561 :=
  ⟨writes_exactly_once ⟨"VAULT", none⟩ 0 sampleRun twoWrites twoWrites_honest, by decide⟩

/-- Of its three receipts two are for the withdrawal. -/
theorem receipts_truthful_twoWrites :
    let s := session twoTransactions "VAULT" sampleGenesis (.fresh ⟨"VAULT", none⟩ 0 sampleRun)
      twoWrites
    receipts s.shared.journal = [⟨"withdraw", "bb", none, .failed⟩,
        ⟨"deposit", "aa", some 9, .success⟩, ⟨"withdraw", "bb", none, .failed⟩] ∧
      s.shared.env.Executed twoTransactions "bb" .failed := by
  refine ⟨by decide, ?_⟩
  exact (receipts_truthful ⟨"VAULT", none⟩ 0 sampleRun
    twoWrites twoWrites_honest ⟨"withdraw", "bb", none, .failed⟩ (by decide)).2.1 rfl

end Sample

/-! One call in a session. -/

section OneCall

omit [DecidableEq Address] in
/-- Loading an account asks at most once for each attempt that is left, and once
to begin with. -/
theorem bounded_loadAccountFrom (publicKey : Address) (left attempt : Nat) :
    (loadAccountFrom publicKey left attempt :
      Async contract Account Sim Tx RpcError Account).run.Bounded (left + 1) := by
  induction left generalizing attempt with
  | zero => exact Bounded.bindT (m := 0) (bounded_await _) fun reply => trivial
  | succ left ih =>
      rw [loadAccountFrom, Nat.add_comm (left + 1) 1]
      refine Bounded.bindT (bounded_await _) fun reply => ?_
      cases reply with
      | ok account => trivial
      | error e =>
          simp only
          split_ifs
          · exact ih (attempt + 1)
          · trivial

omit [DecidableEq Address] in
/-- The simulation and the key are asked for. -/
theorem bounded_prepareWith (method : String) (params : Call Address) (source : Account) :
    (prepareWith sdk method params source :
      Async contract Account Sim Tx SorobanError Tx).run.Bounded 2 := by
  refine Bounded.bindT (n := 0) (m := 2) ?_ fun tx => ?_
  · exact Bounded.adapt fun _ _ => trivial
  · refine Bounded.bindT (n := 1) (m := 1) ?_ fun sim => ?_
    · refine Bounded.bindT (m := 0) (bounded_await _) fun reply => ?_
      rcases reply with e | message | sim
      · trivial
      · trivial
      · trivial
    · refine Bounded.bindT (n := 0) (m := 1) (Bounded.adapt trivial) fun assembled => ?_
      refine Bounded.bindT (m := 0) (bounded_await _) fun key => ?_
      rcases key with e | _ | secretSeed
      · trivial
      · trivial
      · exact Bounded.adapt trivial

omit [DecidableEq Address] in
/-- Polling asks at most as often as it has attempts left. -/
theorem bounded_pollFrom (method txHash : String) (left attempt : Nat) :
    (pollFrom method txHash left attempt :
      Async contract Account Sim Tx SorobanError (Option Reply)).run.Bounded left := by
  induction left generalizing attempt with
  | zero => exact fun _ => trivial
  | succ left ih =>
      rw [pollFrom, Nat.add_comm left 1]
      refine Bounded.bindT (bounded_await _) fun got => ?_
      rcases got with message | got
      · exact ih (attempt + 1)
      · cases got with
        | notFound => exact ih (attempt + 1)
        | success ledger returnValue => exact fun _ => trivial
        | failed => exact fun _ => trivial

omit [DecidableEq Address] in
/-- The submission is one question, and each poll another. -/
theorem bounded_submit (method : String) (signed : Tx) :
    (submit method signed : Async contract Account Sim Tx SorobanError
      (Option Reply)).run.Bounded (1 + pollAttempts) := by
  refine Bounded.bindT ?_ fun txHash => bounded_pollFrom method txHash pollAttempts 0
  refine Bounded.bindT (m := 0) (fun _ _ => trivial) fun reply => ?_
  rcases reply with message | ⟨status, hash, detail⟩
  · trivial
  · cases status <;> trivial

omit [DecidableEq Address] in
/-- What is left to ask once the deployment has been read. -/
theorem bounded_started (owner : Address) (method : String) (params : Call Address)
    (w : Session contract Tx) :
    (Script.settle w [] (body sdk (.invokeContract owner method params) :
      Script (Env contract Tx) (Question Address Tx) (Answer Account Sim) (Note Tx)
        Result)).2.2.Bounded (fallbacks w.env.deployment + 34) := by
  let started : Async contract Account Sim Tx SorobanError (Option Reply) :=
    ((loadAccountFrom owner (fallbacks w.env.deployment) 0).adapt
      (fun e => sorobanNetworkError method .build e.message) >>= prepareWith sdk method params) >>=
      submit method
  have hStarted : started.run.Bounded (fallbacks w.env.deployment + 1 + 2 + (1 + pollAttempts)) :=
    Bounded.bindT (Bounded.bindT (bounded_loadAccountFrom owner _ 0).adapt
      (bounded_prepareWith method params)) (bounded_submit method)
  have hBody : Bounded (started.run >>= fun result => pure (Result.invoked result))
      (fallbacks w.env.deployment + 34) :=
    hStarted.bind (m := 0) fun result => trivial
  exact hBody.settle w []

/-- A write that is begun in any state of any session has ended once it has been
answered 34 times, and once more for each fallback of the deployment, whatever
the answers are and whatever else happens meanwhile. -/
theorem writes_end (owner : Address) (method : String) (params : Call Address)
    (s : State contract Account Sim Tx) (as : List (Happening contract Account Sim Tx))
    (hAnswered : fallbacks s.shared.env.deployment + 34 ≤
      Interleaving.resumes s.calls.length as) :
    ∃ l result, (final (stepSession sdk here g) s
        (.start (.invokeContract owner method params) :: as)).calls[s.calls.length]? = some l ∧
      l.script = .done result := by
  have hBegun : (stepSession sdk here g s
      (.start (.invokeContract owner method params))).1.calls[s.calls.length]? =
      some ((program (body sdk) (event sdk here g)).start s.shared
        (.invokeContract owner method params)).point := List.getElem?_concat_length
  exact Bounded.ends hBegun (settle_written _ s.shared []).1
    (bounded_started owner method params s.shared) as hAnswered

theorem writes_end_ready : ∃ l result, (final (stepSession twoTransactions "VAULT" sampleGenesis)
      ⟨⟨.fresh ⟨"VAULT", none⟩ 0 sampleRun, []⟩, []⟩
      (.start (.invokeContract 7 "deposit" topUp) ::
        List.replicate 34 (.resume 0 ready))).calls[0]? = some l ∧ l.script = .done result :=
  writes_end 7 "deposit" topUp ⟨⟨.fresh ⟨"VAULT", none⟩ 0 sampleRun, []⟩, []⟩
    (List.replicate 34 (.resume 0 ready)) (by decide)

/-- A write that is begun in any state of a session and answered without delay
ends as the function does on these answers, and has emitted its receipts. -/
theorem session_invokes (owner : Address) (method : String) (params : Call Address)
    (s : State contract Account Sim Tx)
    (answers : (question : Question Address Tx) → Answer Account Sim question) :
    let outcome := SorobanClient.invokeContract method (attemptOf sdk answers s.shared owner params)
    ∃ count log, (final (stepSession sdk here g) s
        (.start (.invokeContract owner method params) ::
          List.replicate count (.resume s.calls.length answers))).calls[s.calls.length]? =
        some ⟨.invokeContract owner method params, log, .done (.invoked outcome.result)⟩ ∧
      receipts log = outcome.receipts := by
  let request : Request Address := .invokeContract owner method params
  let begun : State contract Account Sim Tx := (stepSession sdk here g s (.start request)).1
  let after := alone answers s.shared [] (body sdk request)
  have hReached : ∃ count, final (stepSession sdk here g) begun
      (List.replicate count (.resume s.calls.length answers)) =
        ⟨after.1, begun.calls.set s.calls.length ⟨request, after.2.1, .done after.2.2⟩⟩ :=
    alone_reached answers rfl List.getElem?_concat_length
  obtain ⟨count, hCount⟩ := hReached
  obtain ⟨hResult, hReceipts⟩ := invokeContract_alone sdk answers s.shared owner method params
  have hAfter : after = _ := alone_bind answers (invokeContract sdk owner method params).run
    (fun result => pure (Result.invoked result)) s.shared []
  rw [hAfter] at hCount
  refine ⟨count, _, ?_, hReceipts⟩
  rw [final, hCount, ← hResult]
  exact List.getElem?_set_self (by simp [begun, stepSession, Interleaving.step])

end OneCall

end Writing
