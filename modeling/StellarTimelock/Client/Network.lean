import StellarTimelock.Client.InvokeContract
import StellarTimelock.Client.FetchEvents
import StellarTimelock.Contract.World
import StellarTimelock.Semantics.Script

/-! What the write pipeline talks to: a network that takes transactions in, runs
each at most once at a time of its own choosing, and tells the truth about them
when it answers at all. A transaction is known by its hash. -/
namespace Writing

open SorobanClient XlmVault Execution

variable {Address Account Sim Keypair Tx : Type}

/-- What a transaction is for: `contract.call(method, ...params)` of a
state-changing entry point. -/
structure Operation (Address : Type) where
  contractId : String
  params : Call Address
  deriving DecidableEq

/-- The transaction library. What a transaction does is fixed when it is built,
and equal hashes are hashes of the same content. -/
structure Sdk (Address Account Sim Keypair Tx : Type) where
  buildTransaction : Account → EventFetch.Deployment → Operation Address → (now : Int) →
    Except String Tx
  assembleTransaction : Tx → Sim → Except String Tx
  fromSecret : String → Except String Keypair
  sign : Keypair → Tx → Except String Tx
  hash : Tx → String
  operation : Tx → Operation Address
  operation_build : ∀ {account deployment operation' now tx},
    buildTransaction account deployment operation' now = .ok tx → operation tx = operation'
  operation_assemble : ∀ {tx sim assembled},
    assembleTransaction tx sim = .ok assembled → operation assembled = operation tx
  operation_sign : ∀ {keypair tx signed}, sign keypair tx = .ok signed →
    operation signed = operation tx
  operation_of_hash : ∀ {tx tx'}, hash tx = hash tx' → operation tx = operation tx'

/-- What a script leaves behind: `sendTransaction` has been called with a
transaction, or a receipt has been emitted. -/
inductive Note (Tx : Type) where
  | sent (tx : Tx)
  | receipt (r : TxReceipt)

/-- How a transaction ended, with the return value of a contract call. -/
inductive Verdict where
  | success (returnValue : Option Reply)
  | failed
  deriving DecidableEq

/-- A transaction that is on the ledger, with its place in the run of the
contract if it got that far. -/
structure LedgerEntry (Tx : Type) where
  tx : Tx
  verdict : Verdict
  place : Option Nat

/-- The active deployment and the clock of the device, and the network. A reply
is to the request at a place in the journal. -/
structure Env (contract : Address) (Tx : Type) where
  deployment : EventFetch.Deployment
  now : Int
  replies : List (Nat × SendReply)
  accepted : List Tx
  executions : List (LedgerEntry Tx)
  run : List (Action contract)

variable {contract : Address}

instance : Preorder (Env contract Tx) where
  le env env' := env.replies <+: env'.replies ∧ env.accepted <+: env'.accepted ∧
    env.executions <+: env'.executions ∧ env.run <+: env'.run
  le_refl _ := ⟨List.prefix_rfl, List.prefix_rfl, List.prefix_rfl, List.prefix_rfl⟩
  le_trans _ _ _ h h' := ⟨h.1.trans h'.1, h.2.1.trans h'.2.1, h.2.2.1.trans h'.2.2.1,
    h.2.2.2.trans h'.2.2.2⟩

/-- What the network makes of a transaction that is new to it. -/
inductive Arrival where
  | accept
  | tryAgainLater
  | refuse (detail : Option String)

def Arrival.status : Arrival → SendStatus
  | .accept => .pending
  | .tryAgainLater => .tryAgainLater
  | .refuse _ => .error

def Arrival.detail : Arrival → Option String
  | .refuse detail => detail
  | .accept | .tryAgainLater => none

inductive Event (contract : Address) where
  | switchDeployment (deployment : EventFetch.Deployment)
  | tick (now : Int)
  /-- The request at a place in the journal reaches the network. -/
  | arrive (place : Nat) (arrival : Arrival)
  /-- An accepted call of the contract is run. -/
  | execute (number : Nat) (auth : Authorisation contract) (client : TokenClient Address)
  /-- An accepted transaction fails before the contract runs, or has nothing to
  do with it. -/
  | settle (number : Nat) (verdict : Verdict)
  /-- Something else happens to the contract. -/
  | act (a : Action contract)

/-- The environment and the common journal of a session's scripts. -/
abbrev Session (contract : Address) (Tx : Type) : Type :=
  Script.World (Env contract Tx) (Note Tx)

variable (sdk : Sdk Address Account Sim Keypair Tx)

def knows (txs : List Tx) (tx : Tx) : Bool := txs.any fun other => sdk.hash other = sdk.hash tx

/-- A transaction that the network has accepted before is a duplicate. -/
def arrive (env : Env contract Tx) (place : Nat) (tx : Tx) (arrival : Arrival) : Env contract Tx :=
  if knows sdk env.accepted tx then
    { env with replies := env.replies ++ [(place, ⟨.duplicate, sdk.hash tx, none⟩)] }
  else
    { env with
      replies := env.replies ++ [(place, ⟨arrival.status, sdk.hash tx, arrival.detail⟩)]
      accepted := match arrival with
        | .accept => env.accepted ++ [tx]
        | .tryAgainLater | .refuse _ => env.accepted }

variable [DecidableEq Address] (here : String) (g : Genesis contract)

/-- The contract after everything that has happened to it. -/
def Env.world (env : Env contract Tx) : XlmVault.World Address := final (step contract) g.world env.run

def verdictOf : Option (Except Failure Reply) → Verdict
  | some (.ok reply) => .success (some reply)
  | some (.error _) => .failed
  | none => .failed

def execute (env : Env contract Tx) (tx : Tx) (auth : Authorisation contract)
    (client : TokenClient Address) : Env contract Tx :=
  if (sdk.operation tx).contractId = here then
    let action : Action contract := .invoke auth client (sdk.operation tx).params
    { env with
      run := env.run ++ [action]
      executions := env.executions ++
        [⟨tx, verdictOf (step contract (env.world g) action).2.result, some env.run.length⟩] }
  else env

/-- A call that the contract has not run has failed. -/
def settledVerdict (tx : Tx) (verdict : Verdict) : Verdict :=
  if (sdk.operation tx).contractId = here then .failed else verdict

def settle (env : Env contract Tx) (tx : Tx) (verdict : Verdict) : Env contract Tx :=
  { env with executions := env.executions ++ [⟨tx, settledVerdict sdk here tx verdict, none⟩] }

/-- The accepted transaction with a number, if it is not on the ledger yet. -/
def waiting (env : Env contract Tx) (number : Nat) : Option Tx :=
  env.accepted[number]?.filter fun tx => !knows sdk (env.executions.map (·.tx)) tx

def event (w : Session contract Tx) : Event contract → Env contract Tx
  | .switchDeployment deployment => { w.env with deployment }
  | .tick now => { w.env with now }
  | .arrive place arrival =>
      match w.journal[place]? with
      | some (.sent tx) => arrive sdk w.env place tx arrival
      | _ => w.env
  | .execute number auth client =>
      match waiting sdk w.env number with
      | some tx => execute sdk here g w.env tx auth client
      | none => w.env
  | .settle number verdict =>
      match waiting sdk w.env number with
      | some tx => settle sdk here w.env tx verdict
      | none => w.env
  | .act a => { w.env with run := w.env.run ++ [a] }

/-- The outcome of a contract call at a place of its run. -/
def Env.resultAt (env : Env contract Tx) (place : Nat) : Option (Except Failure Reply) :=
  (trace (step contract) g.world env.run)[place]?.bind (·.result)

variable {sdk here g}

omit [DecidableEq Address] in
/-- A success on the ledger of a call of the contract is a call that has
returned, and carries its reply. -/
theorem verdictOf_success {outcome : Option (Except Failure Reply)} {returnValue : Option Reply}
    (h : verdictOf outcome = .success returnValue) :
    ∃ reply, outcome = some (.ok reply) ∧ returnValue = some reply := by
  rcases outcome with _ | failure | reply
  · cases h
  · cases h
  · cases h
    exact ⟨reply, rfl, rfl⟩

omit [DecidableEq Address] in
/-- A transaction is new to the network if none that it knows has the same hash.
-/
theorem knows_eq_false_iff {txs : List Tx} {tx : Tx} :
    knows sdk txs tx = false ↔ ∀ other ∈ txs, sdk.hash other ≠ sdk.hash tx := by
  simp [knows]

variable (sdk here g) in
/-- Replies answer requests, the ledger holds what was accepted, each
transaction once and none in the place of another, and what it says of a call
of the contract is what the contract did. -/
structure Sound (w : Session contract Tx) : Prop where
  replies : ∀ place reply, (place, reply) ∈ w.env.replies →
    ∃ tx, w.journal[place]? = some (.sent tx) ∧ reply.hash = sdk.hash tx
  accepted : ∀ tx ∈ w.env.accepted, .sent tx ∈ w.journal
  executed : ∀ e ∈ w.env.executions, e.tx ∈ w.env.accepted
  once : (w.env.executions.map fun e => sdk.hash e.tx).Nodup
  apart : ∀ e ∈ w.env.executions, ∀ e' ∈ w.env.executions, ∀ place, e.place = some place →
    e'.place = some place → e = e'
  placed : ∀ e ∈ w.env.executions, ∀ place, e.place = some place →
    (sdk.operation e.tx).contractId = here ∧
      (∃ auth client, w.env.run[place]? = some (.invoke auth client (sdk.operation e.tx).params)) ∧
      e.verdict = verdictOf (w.env.resultAt g place)
  unplaced : ∀ e ∈ w.env.executions, e.place = none →
    (sdk.operation e.tx).contractId = here → e.verdict = .failed

/-- A network that nothing has been sent to is sound, over whatever history the
contract already has. -/
theorem sound_initial {env : Env contract Tx} (hReplies : env.replies = [])
    (hAccepted : env.accepted = []) (hExecutions : env.executions = []) :
    Sound sdk here g (⟨env, []⟩ : Session contract Tx) where
  replies place reply h := by simp [hReplies] at h
  accepted tx h := by simp [hAccepted] at h
  executed e h := by simp [hExecutions] at h
  once := by simp [hExecutions]
  apart e h := by simp [hExecutions] at h
  placed e h := by simp [hExecutions] at h
  unplaced e h := by simp [hExecutions] at h

theorem getElem?_of_prefix {α : Type} {xs ys : List α} (h : xs <+: ys) {i : Nat} {x : α}
    (hx : xs[i]? = some x) : ys[i]? = some x := by
  obtain ⟨zs, rfl⟩ := h
  rw [List.getElem?_append_left (List.getElem?_eq_some_iff.mp hx).1, hx]

/-- A note of a script, that it has sent something or emitted a receipt, leaves
the network sound: only the requests are looked at and these are only added to.
-/
theorem Sound.tell {w : Session contract Tx} (h : Sound sdk here g w)
    (note : Note Tx) : Sound sdk here g (w.tell note) where
  replies place reply hReply := by
    obtain ⟨tx, hAt, hHash⟩ := h.replies place reply hReply
    exact ⟨tx, getElem?_of_prefix (List.prefix_append w.journal [note]) hAt, hHash⟩
  accepted tx hTx := List.mem_append_left [note] (h.accepted tx hTx)
  executed := h.executed
  once := h.once
  apart := h.apart
  placed := h.placed
  unplaced := h.unplaced

/-- More of the run leaves what has happened as it is. -/
theorem resultAt_append (env : Env contract Tx) (more : List (Action contract)) {place : Nat}
    (hPlace : place < env.run.length) :
    Env.resultAt g { env with run := env.run ++ more } place = env.resultAt g place := by
  unfold Env.resultAt
  rw [trace_append, List.getElem?_append_left]
  rwa [length_trace]

theorem resultAt_last (env : Env contract Tx) (a : Action contract) :
    Env.resultAt g { env with run := env.run ++ [a] } env.run.length =
      (step contract (env.world g) a).2.result := by
  unfold Env.resultAt Env.world
  rw [trace_concat, List.getElem?_append_right (Nat.le_of_eq (length_trace _ _ _)), length_trace,
    Nat.sub_self]
  rfl

/-- The place of an execution lies in the contract's run so far. -/
theorem Sound.place_lt {w : Session contract Tx}
    (h : Sound sdk here g w) {e : LedgerEntry Tx} (he : e ∈ w.env.executions) {place : Nat}
    (hPlace : e.place = some place) : place < w.env.run.length := by
  obtain ⟨-, ⟨auth, client, hRun⟩, -⟩ := h.placed e he place hPlace
  exact (List.getElem?_eq_some_iff.mp hRun).1

section Events

variable {w : Session contract Tx}

/-- When a submission arrives, now or for the second time, the network stays
sound: it accepts only what was sent, only once by hash, and keeps the reply for
whoever asks. -/
theorem Sound.arrive (h : Sound sdk here g w) {place : Nat} {tx : Tx}
    (hRequest : w.journal[place]? = some (.sent tx)) (arrival : Arrival) :
    Sound sdk here g { w with env := arrive sdk w.env place tx arrival } := by
  have hReplies (reply : SendReply) (hHash : reply.hash = sdk.hash tx) (place' : Nat)
      (reply' : SendReply) (hMem : (place', reply') ∈ w.env.replies ++ [(place, reply)]) :
      ∃ tx, w.journal[place']? = some (.sent tx) ∧ reply'.hash = sdk.hash tx := by
    rcases List.mem_append.mp hMem with hOld | hNew
    · exact h.replies place' reply' hOld
    · obtain ⟨rfl, rfl⟩ := Prod.mk.inj (List.mem_singleton.mp hNew)
      exact ⟨tx, hRequest, hHash⟩
  unfold Writing.arrive
  split_ifs with hKnown
  · exact { h with replies := hReplies _ rfl }
  · cases arrival with
    | accept =>
        refine { h with replies := hReplies _ rfl, accepted := ?_, executed := ?_ }
        · intro other hOther
          rcases List.mem_append.mp hOther with hOld | hNew
          · exact h.accepted other hOld
          · rw [List.mem_singleton.mp hNew]
            exact List.mem_of_getElem? hRequest
        · exact fun e he => List.mem_append_left [tx] (h.executed e he)
    | tryAgainLater => exact { h with replies := hReplies _ rfl }
    | refuse detail => exact { h with replies := hReplies _ rfl }

omit [DecidableEq Address] in
/-- A transaction that waits has been accepted and has not been run, which is
why running it cannot be the second time. -/
theorem waiting_some {env : Env contract Tx} {number : Nat} {tx : Tx}
    (hWaiting : waiting sdk env number = some tx) :
    tx ∈ env.accepted ∧ ∀ e ∈ env.executions, sdk.hash e.tx ≠ sdk.hash tx := by
  obtain ⟨hAt, hNew⟩ := Option.filter_eq_some_iff.mp hWaiting
  have hUnknown := knows_eq_false_iff.mp (Bool.not_eq_true' _ ▸ hNew)
  exact ⟨List.mem_of_getElem? hAt, fun e he => hUnknown e.tx (List.mem_map_of_mem he)⟩

/-- Whatever other users of the contract do, the network stays sound: the places
of earlier executions do not move as the run grows. -/
theorem Sound.run (h : Sound sdk here g w) (more : List (Action contract)) :
    Sound sdk here g { w with env := { w.env with run := w.env.run ++ more } } :=
  { h with
    placed := by
      intro e he place hPlace
      obtain ⟨hHere, ⟨auth, client, hRun⟩, hVerdict⟩ := h.placed e he place hPlace
      refine ⟨hHere, ⟨auth, client, getElem?_of_prefix (List.prefix_append _ more) hRun⟩, ?_⟩
      rw [hVerdict]
      exact congrArg verdictOf (resultAt_append w.env more (h.place_lt he hPlace)).symm }

/-- One more transaction on the ledger, in a place of its own or in none. -/
theorem Sound.execution (h : Sound sdk here g w) {e : LedgerEntry Tx} (hAccepted : e.tx ∈ w.env.accepted)
    (hNew : ∀ other ∈ w.env.executions, sdk.hash other.tx ≠ sdk.hash e.tx)
    (more : List (Action contract))
    (hPlaced : ∀ place, e.place = some place → place = w.env.run.length ∧
      (sdk.operation e.tx).contractId = here ∧ ∃ auth client,
        more = [.invoke auth client (sdk.operation e.tx).params] ∧
        e.verdict = verdictOf (step contract (w.env.world g)
          (.invoke auth client (sdk.operation e.tx).params)).2.result)
    (hUnplaced : e.place = none → (sdk.operation e.tx).contractId = here → e.verdict = .failed) :
    Sound sdk here g { w with env := { w.env with
      run := w.env.run ++ more, executions := w.env.executions ++ [e] } } where
  replies := h.replies
  accepted := h.accepted
  executed other hOther := by
    rcases List.mem_append.mp hOther with hOld | hLast
    · exact h.executed other hOld
    · rw [List.mem_singleton.mp hLast]
      exact hAccepted
  once := by
    rw [List.map_append, List.nodup_append]
    refine ⟨h.once, List.nodup_singleton _, ?_⟩
    intro hash hHash hash' hHash'
    obtain ⟨other, hOther, rfl⟩ := List.mem_map.mp hHash
    rw [List.mem_singleton.mp hHash']
    exact hNew other hOther
  apart first hFirst second hSecond place hPlace hPlace' := by
    have hOld {other : LedgerEntry Tx} (hOther : other ∈ w.env.executions)
        (hAt : other.place = some place) (hLast : e.place = some place) : False := by
      have hLt := h.place_lt hOther hAt
      have hEnd := (hPlaced place hLast).1
      omega
    rcases List.mem_append.mp hFirst with hFirst | hFirst
    · rcases List.mem_append.mp hSecond with hSecond | hSecond
      · exact h.apart first hFirst second hSecond place hPlace hPlace'
      · rw [List.mem_singleton.mp hSecond] at hPlace'
        exact (hOld hFirst hPlace hPlace').elim
    · rcases List.mem_append.mp hSecond with hSecond | hSecond
      · rw [List.mem_singleton.mp hFirst] at hPlace
        exact (hOld hSecond hPlace' hPlace).elim
      · rw [List.mem_singleton.mp hFirst, List.mem_singleton.mp hSecond]
  placed other hOther place hPlace := by
    rcases List.mem_append.mp hOther with hOld | hLast
    · exact (h.run more).placed other hOld place hPlace
    · rw [List.mem_singleton.mp hLast] at hPlace ⊢
      obtain ⟨rfl, hHere, auth, client, rfl, hVerdict⟩ := hPlaced place hPlace
      refine ⟨hHere, ⟨auth, client, ?_⟩, ?_⟩
      · exact List.getElem?_concat_length
      · rw [hVerdict]
        exact congrArg verdictOf (resultAt_last w.env _).symm
  unplaced other hOther hPlace hHere := by
    rcases List.mem_append.mp hOther with hOld | hLast
    · exact h.unplaced other hOld hPlace hHere
    · rw [List.mem_singleton.mp hLast] at hPlace hHere ⊢
      exact hUnplaced hPlace hHere

/-- Every event of the network, the execution of a waiting transaction among
them, keeps it sound. -/
theorem Sound.event (h : Sound sdk here g w) (e : Event contract) :
    Sound sdk here g { w with env := event sdk here g w e } := by
  cases e with
  | switchDeployment deployment => exact { h with }
  | tick now => exact { h with }
  | arrive place arrival =>
      simp only [Writing.event]
      split
      · next tx hRequest => exact h.arrive hRequest arrival
      · exact h
  | execute number auth client =>
      simp only [Writing.event]
      split
      · next tx hWaiting =>
          obtain ⟨hAccepted, hNew⟩ := waiting_some hWaiting
          unfold execute
          split_ifs with hHere
          · refine h.execution (e := ⟨tx, _, some w.env.run.length⟩) hAccepted hNew
              [.invoke auth client (sdk.operation tx).params] ?_ (fun hNone => by cases hNone)
            intro place hPlace
            cases hPlace
            exact ⟨rfl, hHere, auth, client, rfl, rfl⟩
          · exact h
      · exact h
  | settle number verdict =>
      simp only [Writing.event]
      split
      · next tx hWaiting =>
          obtain ⟨hAccepted, hNew⟩ := waiting_some hWaiting
          have hSettled := h.execution (e := ⟨tx, settledVerdict sdk here tx verdict, none⟩) hAccepted
            hNew [] (fun place hPlace => by cases hPlace) (fun _ hHere => if_pos hHere)
          rw [List.append_nil] at hSettled
          exact hSettled
      · exact h
  | act a => exact h.run [a]

omit [DecidableEq Address] in
theorem le_arrive (env : Env contract Tx) (place : Nat) (tx : Tx) (arrival : Arrival) :
    env ≤ arrive sdk env place tx arrival := by
  unfold arrive
  split_ifs
  · exact ⟨List.prefix_append _ _, List.prefix_rfl, List.prefix_rfl, List.prefix_rfl⟩
  · refine ⟨List.prefix_append _ _, ?_, List.prefix_rfl, List.prefix_rfl⟩
    cases arrival with
    | accept => exact List.prefix_append _ _
    | tryAgainLater => exact List.prefix_rfl
    | refuse detail => exact List.prefix_rfl

/-- Running a transaction only adds: to the executions and, if it calls this
contract, to the contract's run. -/
theorem le_execute (env : Env contract Tx) (tx : Tx) (auth : Authorisation contract)
    (client : TokenClient Address) : env ≤ execute sdk here g env tx auth client := by
  unfold execute
  split_ifs
  · exact ⟨List.prefix_rfl, List.prefix_rfl, List.prefix_append _ _, List.prefix_append _ _⟩
  · exact le_refl env

/-- The network forgets nothing: an event of it only adds to what was executed
and to what was replied. -/
theorem le_event (w : Session contract Tx) (e : Event contract) :
    w.env ≤ event sdk here g w e := by
  cases e with
  | switchDeployment deployment => exact le_refl w.env
  | tick now => exact le_refl w.env
  | arrive place arrival =>
      simp only [Writing.event]
      split
      · exact le_arrive w.env place _ arrival
      · exact le_refl w.env
  | execute number auth client =>
      simp only [Writing.event]
      split
      · exact le_execute w.env _ auth client
      · exact le_refl w.env
  | settle number verdict =>
      simp only [Writing.event]
      split
      · exact ⟨List.prefix_rfl, List.prefix_rfl, List.prefix_append _ _, List.prefix_rfl⟩
      · exact le_refl w.env
  | act a => exact ⟨List.prefix_rfl, List.prefix_rfl, List.prefix_rfl, List.prefix_append _ _⟩

end Events

end Writing
