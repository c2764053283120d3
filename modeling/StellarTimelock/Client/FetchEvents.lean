import StellarTimelock.Client.Failover

/-! The contract-wide event fetch as concurrent calls over its two caches, the
active deployment and the URL of the RPC. Every `await` is a suspension point; a
write to the disk takes effect some time after it was issued, or never. -/
namespace EventFetch

open SorobanClient Interleaving FloatingPoint

def eventLedgersWindow : Nat := 17280

def eventPageLimit : Nat := 200

def maxEvents : Nat := 1000

def maxPages : Nat := 20

def eventCacheMs : Int := 8000

def eventDiskTtlMs : Int := 24 * 60 * 60 * 1000

/-- What the code reads of the deployment that is active. -/
structure Deployment where
  contractId : String
  rpcFallbacks : Option (List String)
  deriving DecidableEq

/-- The primary RPC of a deployment and its fallbacks. -/
def Deployment.candidates (deployment : Deployment) : Nat :=
  1 + (deployment.rpcFallbacks.map List.length).getD 0

/-- The storage key of a contract's events. -/
def eventDiskKey (contractId : String) : String := "xlm_vault_events_cache:" ++ contractId

/-- Deployments of different contracts have different entries on the disk, since
the key ends in the contract's id. -/
theorem eventDiskKey_injective : Function.Injective eventDiskKey := by
  intro a b h
  have hChars := congrArg String.toList h
  unfold eventDiskKey at hChars
  rw [String.toList_append, String.toList_append] at hChars
  exact String.toList_injective (List.append_cancel_left hChars)

/-- A parsed event with the contract whose event it is. The program keeps only
the event. -/
structure Owned where
  contract : String
  event : ParsedEvent
  deriving DecidableEq

structure EventCache where
  time : Int
  data : List Owned

structure PersistedEvents where
  contractId : String
  fetchedAt : Int
  latestLedger : Nat
  startLedger : Nat
  events : List Owned

/-- An operation on the disk that was issued and not awaited. -/
inductive DiskOperation where
  | setItem (diskKey : String) (payload : PersistedEvents)
  | removeItem (diskKey : String)

/-- The module's variables, the active deployment, the index of the candidate
that `rpcServer` turns to, and the disk. -/
structure Shared where
  active : Deployment
  rpcUrl : Nat
  eventCache : Option EventCache
  disk : String → Option PersistedEvents
  pending : List DiskOperation

/-- A request of one page: the first has a start ledger, the others a cursor. -/
structure EventsRequest where
  contractId : String
  cursor : Option String
  startLedger : Option Nat
  limit : Nat
  deriving DecidableEq

/-- The local variables of the page loop. -/
structure PageLoop where
  latestLedger : Nat
  events : List Owned
  cursor : Option String
  page : Nat

def PageLoop.startLedger (loop : PageLoop) : Nat := max 1 (loop.latestLedger - eventLedgersWindow)

/-- Why a fetch rejects. -/
inductive Failure where
  | network (e : SorobanError)
  | thrown (e : JsError)
  deriving DecidableEq

/-- Where a call is suspended. `total` is the number of candidate RPCs at its
start, `error` the exception it ends with if the disk holds nothing. -/
inductive Point where
  /-- `getLatestLedger` is under way. -/
  | latest (total attempt : Nat)
  /-- `getEvents` is under way. -/
  | page (total attempt : Nat) (request : EventsRequest) (loop : PageLoop)
  /-- `storage.getItem` is under way in `readDiskCache`. -/
  | readingDisk (diskKey : String) (error : SorobanError)
  | diskItem (parsed : Option PersistedEvents) (error : SorobanError)
  /-- `readDiskCache` has returned and the fetch is to go on. -/
  | diskRead (disk : Option PersistedEvents) (error : SorobanError)
  | finished (result : Except Failure (List Owned))

/-- The answer to what a call waits for, and the time it arrives. -/
structure Answer (Address : Type) where
  now : Int
  error : Option RpcError
  sequence : Nat
  events : List (EventResponse Address)
  cursor : Option String

inductive Change where
  | switchDeployment (deployment : Deployment)
  /-- Other loops rotate the URL of the RPC, too, and a switch may reset it. -/
  | moveRpcUrl (url : Nat)
  | invalidateAllCaches
  /-- The disk comes to an operation that was issued. -/
  | settle (number : Nat) (succeeds : Bool)

variable {Address : Type} [Arithmetic] (key : StrKey Address)

/-- The first stretch of a fetch. -/
def fetchContractEvents (s : Shared) (now : Int) : Turn Shared Point Unit :=
  match s.eventCache.filter fun cache => now - cache.time < eventCacheMs with
  | some cache => ⟨s, .finished (.ok cache.data), ()⟩
  | none => ⟨s, .latest s.active.candidates 0, ()⟩

/-- The next attempt goes to the next candidate of the active deployment. -/
def Shared.rotateRpcUrl (s : Shared) : Shared :=
  { s with rpcUrl := Failover.rotateRpcUrl s.active.candidates s.rpcUrl }

/-- Ask for the page that the loop has come to. -/
def requestPage (s : Shared) (total attempt : Nat) (loop : PageLoop) : Turn Shared Point Unit :=
  let request : EventsRequest :=
    { contractId := s.active.contractId
      cursor := loop.cursor
      startLedger := if loop.cursor = none then some loop.startLedger else none
      limit := eventPageLimit }
  ⟨s, .page total attempt request loop, ()⟩

/-- Turn to the disk; `error` is thrown if it has nothing. -/
def readDiskCache (s : Shared) (error : SorobanError) : Turn Shared Point Unit :=
  ⟨s, .readingDisk (eventDiskKey s.active.contractId) error, ()⟩

/-- The end of a fetch: the memory cache is set, the disk write is issued. -/
def complete (s : Shared) (now : Int) (loop : PageLoop) : Turn Shared Point Unit :=
  let payload : PersistedEvents :=
    { contractId := s.active.contractId
      fetchedAt := now
      latestLedger := loop.latestLedger
      startLedger := loop.startLedger
      events := loop.events }
  { shared :=
      { s with
        eventCache := some ⟨now, loop.events⟩
        pending := s.pending ++ [.setItem (eventDiskKey s.active.contractId) payload] }
    point := .finished (.ok loop.events)
    observation := () }

/-- One round of the page loop. The RPC answers with events of the contract it
was asked for. -/
def readPage (s : Shared) (total : Nat) (request : EventsRequest) (loop : PageLoop)
    (answer : Answer Address) : Turn Shared Point Unit :=
  match parseEvents key answer.events with
  | .error e => ⟨s, .finished (.error (.thrown e)), ()⟩
  | .ok parsed =>
      let events := loop.events ++ parsed.map (Owned.mk request.contractId)
      let next := answer.cursor.filter (· ≠ "")
      if next = none ∨ next = loop.cursor then complete s answer.now { loop with events := events }
      else
        let loop' : PageLoop := { loop with events := events, cursor := next, page := loop.page + 1 }
        if loop'.page < maxPages ∧ events.length < maxEvents then requestPage s total 0 loop'
        else complete s answer.now loop'

/-- The later stretches of a fetch. -/
def resume (s : Shared) (point : Point) (answer : Answer Address) : Turn Shared Point Unit :=
  match point with
  | .latest total attempt =>
      match answer.error with
      | none => requestPage s total 0 ⟨answer.sequence, [], none, 0⟩
      | some e =>
          if e.transport = false ∨ attempt = total - 1 then
            readDiskCache s (sorobanNetworkError "getEvents" .build e.message)
          else ⟨s.rotateRpcUrl, .latest total (attempt + 1), ()⟩
  | .page total attempt request loop =>
      match answer.error with
      | none => readPage key s total request loop answer
      | some e =>
          if e.transport = false ∨ attempt = total - 1 then
            readDiskCache s (sorobanNetworkError "getEvents" .simulate e.message)
          else requestPage s.rotateRpcUrl total (attempt + 1) loop
  | .readingDisk diskKey error =>
      ⟨s, if answer.error = none then .diskItem (s.disk diskKey) error else .diskRead none error, ()⟩
  | .diskItem parsed error =>
      let disk := parsed.filter fun p =>
        p.contractId = s.active.contractId ∧ ¬ eventDiskTtlMs < answer.now - p.fetchedAt
      ⟨s, .diskRead disk error, ()⟩
  | .diskRead (some disk) _ =>
      ⟨{ s with eventCache := some ⟨answer.now, disk.events⟩ }, .finished (.ok disk.events), ()⟩
  | .diskRead none error => ⟨s, .finished (.error (.network error)), ()⟩
  | .finished result => ⟨s, .finished result, ()⟩

/-- The disk after an operation has taken effect. -/
def DiskOperation.apply (disk : String → Option PersistedEvents) :
    DiskOperation → String → Option PersistedEvents
  | .setItem diskKey payload => Function.update disk diskKey (some payload)
  | .removeItem diskKey => Function.update disk diskKey none

def change (s : Shared) : Change → Shared × Unit
  -- The listener of the active network runs within the switch.
  | .switchDeployment deployment => ({ s with active := deployment, eventCache := none }, ())
  | .moveRpcUrl url => ({ s with rpcUrl := url }, ())
  | .invalidateAllCaches =>
      let removal : DiskOperation := .removeItem (eventDiskKey s.active.contractId)
      ({ s with eventCache := none, pending := s.pending ++ [removal] }, ())
  | .settle number succeeds =>
      match s.pending[number]? with
      | none => (s, ())
      | some operation =>
          let disk := if succeeds then operation.apply s.disk else s.disk
          ({ s with disk := disk, pending := s.pending.eraseIdx number }, ())

/-- All fetches of the module as one program. A call starts at a time. -/
def program : Program Shared Point Int (Answer Address) Change Unit where
  start := fetchContractEvents
  resume := resume key
  event := change

/-- The module as it is loaded, over what the disk holds. -/
def initial (active : Deployment) (disk : String → Option PersistedEvents) : Shared where
  active := active
  rpcUrl := 0
  eventCache := none
  disk := disk
  pending := []

end EventFetch
