import StellarTimelock.Client.InvokeContract
import StellarTimelock.Semantics.Interleaving

/-! The failover loops of `loadAccount` and `invokeRead` as concurrent calls.
Each counts its own attempts; the URL that they rotate is shared. -/
namespace Failover

open SorobanClient Interleaving Execution

/-- The index of the next candidate of `total`. -/
def rotateRpcUrl (total current : Nat) : Nat := (current + 1) % total

inductive Call where
  | loadAccount
  | invokeRead (method : String)
  deriving DecidableEq

/-- What a loop asks the candidates for. -/
inductive Request where
  /-- The loop of `loadAccount`, called by itself or by `invokeRead`. -/
  | getAccount (call : Call)
  | simulateTransaction (method : String)
  deriving DecidableEq

inductive Thrown where
  | rpc (e : RpcError)
  | soroban (e : SorobanError)
  deriving DecidableEq

/-- How a call ends; `url` is the candidate that gave the last answer. -/
inductive Ended (Account Value : Type) where
  | account (url : Nat) (account : Account)
  | value (url : Nat) (result : Except SorobanError Value)
  | unbuilt (url : Nat) (e : SorobanError)
  | gaveUp (thrown : Thrown)

/-- Where a call is suspended. -/
inductive Point (Account Value : Type) where
  /-- An attempt of a loop is under way at a candidate. -/
  | awaiting (request : Request) (attempt url : Nat)
  /-- `loadAccount` has returned to `invokeRead`. -/
  | loaded (method : String) (url : Nat) (source : Account)
  | finished (ended : Ended Account Value)

/-- A candidate's answer; `sim` carries the result, if there is one. -/
structure Answer (Account Value : Type) where
  error : Option RpcError
  account : Account
  sim : SimulateReply (Option Value)

variable {Account Value : Type}

/-- The exception that leaves the call when the loop gives up. -/
def Request.thrown : Request → RpcError → Thrown
  | .getAccount .loadAccount, e => .rpc e
  | .getAccount (.invokeRead method), e => .soroban (sorobanNetworkError method .build e.message)
  | .simulateTransaction method, e => .soroban (sorobanNetworkError method .simulate e.message)

def readResult (method : String) : SimulateReply (Option Value) → Except SorobanError Value
  | .error message => .error (sorobanSimulationError method message)
  | .success none => .error (sorobanSimulationError method "Empty simulation result")
  | .success (some value) => .ok value

/-- After the answer that ends a loop. -/
def Request.answered (request : Request) (url : Nat) (answer : Answer Account Value) :
    Point Account Value :=
  match request with
  | .getAccount .loadAccount => .finished (.account url answer.account)
  | .getAccount (.invokeRead method) => .loaded method url answer.account
  | .simulateTransaction method => .finished (.value url (readResult method answer.sim))

/-- `total` is the number of candidates, the primary and its fallbacks; `build`
makes the transaction of a read, or throws. -/
def program (total : Nat) (build : String → Account → Except String Unit) :
    Program Nat (Point Account Value) Call (Answer Account Value) Empty Unit where
  start current call := ⟨current, .awaiting (.getAccount call) 0 current, ()⟩
  resume current point answer :=
    match point with
    | .awaiting request attempt url =>
        match answer.error with
        | none => ⟨current, request.answered url answer, ()⟩
        | some e =>
            if e.transport = false ∨ attempt = total - 1 then
              ⟨current, .finished (.gaveUp (request.thrown e)), ()⟩
            else
              let current := rotateRpcUrl total current
              ⟨current, .awaiting request (attempt + 1) current, ()⟩
    | .loaded method url source =>
        match build method source with
        | .error e => ⟨current, .finished (.unbuilt url (sorobanNetworkError method .build e)), ()⟩
        | .ok _ => ⟨current, .awaiting (.simulateTransaction method) 0 current, ()⟩
    | .finished ended => ⟨current, .finished ended, ()⟩
  event _ e := nomatch e

/-- A healthy candidate is among the next `left`, the one at `url` included. -/
def Reaches (total : Nat) (dead : Nat → Prop) (left url : Nat) : Prop :=
  ∃ k < left, ¬ dead ((url + k) % total)

def Faithful (dead : Nat → Prop) (s : System Nat (Point Account Value)) :
    Action Call (Answer Account Value) Empty → Prop
  | .resume number answer => ∀ request attempt url,
      s.calls[number]? = some (.awaiting request attempt url) →
      (dead url → ∃ e, answer.error = some e ∧ e.transport = true) ∧
      (¬ dead url → answer.error = none)
  | _ => True

/-- A loop that fails has enough attempts left to come to a healthy candidate
from the one that the shared URL is rotated to. -/
def InReach (total : Nat) (dead : Nat → Prop) (s : System Nat (Point Account Value)) :
    Action Call (Answer Account Value) Empty → Prop
  | .resume number _ => ∀ request attempt url,
      s.calls[number]? = some (.awaiting request attempt url) → dead url → attempt + 1 < total →
      Reaches total dead (total - (attempt + 1)) (rotateRpcUrl total s.shared)
  | _ => True

/-- No loop has thrown, and what a call has got is from a healthy candidate. -/
def Served (dead : Nat → Prop) : Point Account Value → Prop
  | .awaiting _ _ _ => True
  | .loaded _ url _ => ¬ dead url
  | .finished (.account url _) => ¬ dead url
  | .finished (.value url _) => ¬ dead url
  | .finished (.unbuilt url _) => ¬ dead url
  | .finished (.gaveUp _) => False

/-- The attempts that a call has left, over all its loops. -/
def attemptsLeft (total : Nat) : Point Account Value → Nat
  | .awaiting (.getAccount (.invokeRead _)) attempt _ => total - attempt + 1 + total
  | .awaiting _ attempt _ => total - attempt
  | .loaded _ _ _ => 1 + total
  | .finished _ => 0

/-- A loop never counts up to the number of candidates. -/
def InLoop (total : Nat) : Point Account Value → Prop
  | .awaiting _ attempt _ => attempt < total
  | _ => True

/-- What every suspended call relies on: its loop can still come to a healthy
candidate, if no other loop rotates the URL. -/
def Hopeful (total : Nat) (dead : Nat → Prop) : Point Account Value → Prop
  | .awaiting _ attempt url => url < total ∧ Reaches total dead (total - attempt) url
  | point => Served dead point

/-- Rotating stays among the candidates. -/
theorem rotateRpcUrl_lt {total : Nat} (h : 0 < total) (current : Nat) :
    rotateRpcUrl total current < total := Nat.mod_lt _ h

/-- A full round visits every candidate, so with as many attempts as there are
candidates a healthy one is within reach from wherever the URL stands. -/
theorem reaches_total {total : Nat} {dead : Nat → Prop} (hHealthy : ∃ url < total, ¬ dead url)
    {current : Nat} (hCurrent : current < total) : Reaches total dead total current := by
  obtain ⟨url, hUrl, hAlive⟩ := hHealthy
  rcases Nat.lt_or_ge url current with hBehind | hAhead
  · refine ⟨url + total - current, by omega, ?_⟩
    have hRound : (current + (url + total - current)) % total = url := by
      rw [Nat.add_sub_cancel' (by omega), Nat.add_mod_right, Nat.mod_eq_of_lt hUrl]
    rwa [hRound]
  · refine ⟨url - current, by omega, ?_⟩
    rwa [Nat.add_sub_cancel' hAhead, Nat.mod_eq_of_lt hUrl]

theorem rotateRpcUrl_add (total url k : Nat) :
    (rotateRpcUrl total url + k) % total = (url + (k + 1)) % total := by
  unfold rotateRpcUrl
  rw [Nat.mod_add_mod, Nat.add_assoc, Nat.add_comm 1 k]

/-- Past a dead candidate the distance is one less. -/
theorem Reaches.rotate {total left url : Nat} {dead : Nat → Prop} (hUrl : url < total)
    (h : Reaches total dead left url) (hDead : dead url) :
    Reaches total dead (left - 1) (rotateRpcUrl total url) := by
  obtain ⟨k, hLess, hAlive⟩ := h
  cases k with
  | zero =>
      rw [Nat.add_zero, Nat.mod_eq_of_lt hUrl] at hAlive
      exact absurd hDead hAlive
  | succ k =>
      refine ⟨k, by omega, ?_⟩
      rwa [rotateRpcUrl_add]

/-- A healthy candidate that comes after the next one comes after this one, one
step later. -/
theorem Reaches.before {total left url : Nat} {dead : Nat → Prop}
    (h : Reaches total dead left (rotateRpcUrl total url)) : Reaches total dead (left + 1) url := by
  obtain ⟨k, hLess, hAlive⟩ := h
  refine ⟨k + 1, by omega, ?_⟩
  rwa [rotateRpcUrl_add] at hAlive

theorem Reaches.here {total left url : Nat} {dead : Nat → Prop} (hUrl : url < total)
    (hAlive : ¬ dead url) : Reaches total dead (left + 1) url := by
  refine ⟨0, by omega, ?_⟩
  rwa [Nat.add_zero, Nat.mod_eq_of_lt hUrl]

variable {total : Nat} {build : String → Account → Except String Unit} {dead : Nat → Prop}

/-- A loop that fails with attempts left goes on at the next candidate. -/
theorem resume_rotates {current attempt url : Nat} {request : Request}
    {answer : Answer Account Value} {e : RpcError} (hError : answer.error = some e)
    (hTransport : e.transport = true) (hLeft : attempt + 1 < total) :
    (program total build).resume current (.awaiting request attempt url) answer =
      ⟨rotateRpcUrl total current,
        .awaiting request (attempt + 1) (rotateRpcUrl total current), ()⟩ := by
  have hGoesOn : ¬(e.transport = false ∨ attempt = total - 1) := by
    rw [hTransport]
    rintro (h | h)
    · cases h
    · omega
  show (match answer.error with
    | none => _
    | some e => if e.transport = false ∨ attempt = total - 1 then _ else _) = _
  rw [hError]
  exact if_neg hGoesOn

/-- A loop gives up at an error that is not of the transport, or with its last
attempt. -/
theorem resume_gives_up {current attempt url : Nat} {request : Request}
    {answer : Answer Account Value} {e : RpcError} (hError : answer.error = some e)
    (hThrows : e.transport = false ∨ attempt = total - 1) :
    (program total build).resume current (.awaiting request attempt url) answer =
      ⟨current, .finished (.gaveUp (request.thrown e)), ()⟩ := by
  show (match answer.error with
    | none => _
    | some e => if e.transport = false ∨ attempt = total - 1 then _ else _) = _
  rw [hError]
  exact if_pos hThrows

/-- An answer without an error ends the loop, with that answer. -/
theorem resume_answered {current attempt url : Nat} {request : Request}
    {answer : Answer Account Value} (h : answer.error = none) :
    (program total build).resume current (.awaiting request attempt url) answer =
      ⟨current, request.answered url answer, ()⟩ := by
  show (match answer.error with
    | none => _
    | some e => _) = _
  rw [h]

/-- What a healthy candidate answers serves the loop. -/
theorem Request.answered_served {url : Nat} (hAlive : ¬ dead url) (request : Request)
    (answer : Answer Account Value) : Hopeful total dead (request.answered url answer) := by
  cases request with
  | getAccount call =>
      cases call with
      | loadAccount => exact hAlive
      | invokeRead method => exact hAlive
  | simulateTransaction method => exact hAlive

variable (build) in
/-- One stretch of one call keeps it hopeful and the shared URL among the
candidates: a healthy one answers, and a dead one is followed by a candidate
from which a healthy one is still within reach. -/
theorem resume_hopeful (hTotal : 0 < total) (hHealthy : ∃ url < total, ¬ dead url)
    {current : Nat} (hCurrent : current < total) {point : Point Account Value}
    {answer : Answer Account Value} (h : Hopeful total dead point)
    (hFaithful : ∀ request attempt url, point = .awaiting request attempt url →
      (dead url → ∃ e, answer.error = some e ∧ e.transport = true) ∧
      (¬ dead url → answer.error = none))
    (hReach : ∀ request attempt url, point = .awaiting request attempt url → dead url →
      attempt + 1 < total → Reaches total dead (total - (attempt + 1)) (rotateRpcUrl total current)) :
    ((program total build).resume current point answer).shared < total ∧
      Hopeful total dead ((program total build).resume current point answer).point := by
  cases point with
  | awaiting request attempt url =>
      obtain ⟨hUrl, hNear⟩ := h
      obtain ⟨hFails, hAnswers⟩ := hFaithful request attempt url rfl
      by_cases hDead : dead url
      · obtain ⟨e, hError, hTransport⟩ := hFails hDead
        -- There is no last attempt at a dead candidate.
        have hLeft : attempt + 1 < total := by
          obtain ⟨k, hLess, -⟩ := hNear.rotate hUrl hDead
          omega
        rw [resume_rotates hError hTransport hLeft]
        exact ⟨rotateRpcUrl_lt hTotal current, rotateRpcUrl_lt hTotal current,
          hReach request attempt url rfl hDead hLeft⟩
      · rw [resume_answered (hAnswers hDead)]
        exact ⟨hCurrent, Request.answered_served hDead request answer⟩
  | loaded method url source =>
      show (match build method source with
        | .error e => _
        | .ok _ => _ : Turn Nat (Point Account Value) Unit).shared < total ∧
        Hopeful total dead (match build method source with
        | .error e => _
        | .ok _ => _ : Turn Nat (Point Account Value) Unit).point
      split
      · exact ⟨hCurrent, h⟩
      · exact ⟨hCurrent, hCurrent, reaches_total hHealthy hCurrent⟩
  | finished ended => exact ⟨hCurrent, h⟩

theorem Hopeful.served {point : Point Account Value} (h : Hopeful total dead point) :
    Served dead point := by
  cases point with
  | awaiting request attempt url => trivial
  | loaded method url source => exact h
  | finished ended => exact h

variable (build) in
/-- The local assertions: the shared URL is a candidate, and every loop has a
healthy one among those that its remaining attempts come to, counted from where
it stands. A step that rotates the URL under another loop may break the second.
-/
theorem hopeful_outline (hTotal : 0 < total) (hHealthy : ∃ url < total, ¬ dead url) :
    Outline
      (program total build :
        Program Nat (Point Account Value) Call (Answer Account Value) Empty Unit)
      (fun s a => Faithful dead s a ∧ InReach total dead s a)
      (fun _ current => current < total) (fun _ _ point => Hopeful total dead point) where
  start := by
    intro past s call hCurrent hCalls _
    exact ⟨hCurrent, ⟨hCurrent, reaches_total hHealthy hCurrent⟩, hCalls⟩
  resume := by
    intro past s number point answer hCurrent hCalls hPoint hStep
    obtain ⟨hFaithful, hReach⟩ := hStep
    obtain ⟨hShared, hOwn⟩ := resume_hopeful build hTotal hHealthy hCurrent
      (hCalls point (List.mem_of_getElem? hPoint))
      (fun request attempt url h => hFaithful request attempt url (h ▸ hPoint))
      (fun request attempt url h => hReach request attempt url (h ▸ hPoint))
    exact ⟨hShared, hOwn, fun other l _ hOther => hCalls l (List.mem_of_getElem? hOther)⟩
  event := fun _ _ e => nomatch e
  idle := fun _ _ h => ⟨h, fun _ hPoint => hPoint⟩

/-- A loop whose URL no other loop has rotated since is in reach. -/
theorem inReach_of_undisturbed {s : System Nat (Point Account Value)} {number : Nat}
    (answer : Answer Account Value) (hCalls : ∀ point ∈ s.calls, Hopeful total dead point)
    (hOwn : ∀ request attempt url, s.calls[number]? = some (.awaiting request attempt url) →
      url = s.shared) :
    InReach total dead s (.resume number answer) := by
  intro request attempt url hPoint hDead _
  obtain ⟨hUrl, hNear⟩ := hCalls _ (List.mem_of_getElem? hPoint)
  rw [← hOwn request attempt url hPoint, Nat.sub_add_eq]
  exact hNear.rotate hUrl hDead

theorem not_served {s : System Nat (Point Account Value)} (number : Nat) {e : Thrown}
    (h : s.calls[number]? = some (.finished (.gaveUp e))) :
    ¬ ∀ point ∈ s.calls, Served dead point :=
  fun hServed => hServed _ (List.mem_of_getElem? h)

/-- A dead candidate that fails in transport behaves as it should. -/
theorem faithful_of_dead {s : System Nat (Point Account Value)} {number attempt url : Nat}
    {request : Request} {answer : Answer Account Value} {e : RpcError}
    (hPoint : s.calls[number]? = some (.awaiting request attempt url)) (hDead : dead url)
    (hError : answer.error = some e) (hTransport : e.transport = true) :
    Faithful dead s (.resume number answer) := by
  intro request' attempt' url' hSame
  rw [hPoint] at hSame
  cases hSame
  exact ⟨fun _ => ⟨e, hError, hTransport⟩, fun hAlive => absurd hDead hAlive⟩

variable (build dead) in
/-- Without a healthy candidate in reach it fails until it gives up. -/
theorem starves {answer : Answer Account Value} {e : RpcError} (hError : answer.error = some e)
    (hTransport : e.transport = true) {number : Nat} {request : Request}
    (left attempt : Nat) {url : Nat} {s : System Nat (Point Account Value)} (hTotal : total = attempt + 1 + left)
    (hUrl : url < total) (hShared : s.shared = url)
    (hPoint : s.calls[number]? = some (.awaiting request attempt url))
    (hStarved : ¬ Reaches total dead (left + 1) url) :
    ∃ more, Along (step (program total build)) (Faithful dead) s more ∧
      ¬ ∀ point ∈ (final (step (program total build)) s more).calls, Served dead point := by
  induction left generalizing attempt url s with
  | zero =>
      have hDead : dead url := by_contra fun hAlive => hStarved (Reaches.here hUrl hAlive)
      have hStep := step_resume_some (P := program total build) hPoint answer
      rw [resume_gives_up hError (.inr (by omega))] at hStep
      refine ⟨[.resume number answer], ⟨faithful_of_dead hPoint hDead hError hTransport, trivial⟩, ?_⟩
      rw [final, final, hStep]
      exact not_served number (List.getElem?_set_self (List.getElem?_eq_some_iff.mp hPoint).1)
  | succ left ih =>
      have hDead : dead url := by_contra fun hAlive => hStarved (Reaches.here hUrl hAlive)
      have hStep := step_resume_some (P := program total build) hPoint answer
      rw [resume_rotates hError hTransport (by omega), hShared] at hStep
      have hNext : ¬ Reaches total dead (left + 1) (rotateRpcUrl total url) :=
        fun h => hStarved h.before
      have hAfter : (step (program total build) s (.resume number answer)).1.calls[number]? =
          some (.awaiting request (attempt + 1) (rotateRpcUrl total url)) := by
        rw [hStep]
        exact List.getElem?_set_self (List.getElem?_eq_some_iff.mp hPoint).1
      obtain ⟨more, hAlong, hThrown⟩ := ih (attempt + 1) (by omega) (rotateRpcUrl_lt (by omega) url)
        (by rw [hStep]) hAfter hNext
      exact ⟨.resume number answer :: more,
        ⟨faithful_of_dead hPoint hDead hError hTransport, hAlong⟩, hThrown⟩

variable (build) in
/-- Once a loop that fails can no longer come to a healthy candidate, the run
can go on so that some call is not served. -/
theorem out_of_reach {s : System Nat (Point Account Value)}
    {a : Action Call (Answer Account Value) Empty} (hTotal : 0 < total)
    (hFaithful : Faithful dead s a) (hBreak : ¬ InReach total dead s a) :
    ∃ more, Along (step (program total build)) (Faithful dead) s (a :: more) ∧
      ¬ ∀ point ∈ (final (step (program total build)) s (a :: more)).calls,
        Served dead point := by
  cases a with
  | start call => exact absurd trivial hBreak
  | event e => exact absurd trivial hBreak
  | resume number answer =>
      simp only [InReach] at hBreak
      push Not at hBreak
      obtain ⟨request, attempt, url, hPoint, hDead, hLeft, hFar⟩ := hBreak
      obtain ⟨e, hError, hTransport⟩ := (hFaithful request attempt url hPoint).1 hDead
      have hStep := step_resume_some (P := program total build) hPoint answer
      rw [resume_rotates hError hTransport hLeft] at hStep
      have hAfter : (step (program total build) s (.resume number answer)).1.calls[number]? =
          some (.awaiting request (attempt + 1) (rotateRpcUrl total s.shared)) := by
        rw [hStep]
        exact List.getElem?_set_self (List.getElem?_eq_some_iff.mp hPoint).1
      obtain ⟨left, hSplit⟩ := Nat.exists_eq_add_of_le' hLeft
      obtain ⟨more, hAlong, hThrown⟩ := starves build dead hError hTransport
        left (attempt + 1) (by omega) (rotateRpcUrl_lt hTotal s.shared) (by rw [hStep])
        hAfter (by rwa [show total - (attempt + 1) = left + 1 by omega] at hFar)
      exact ⟨more, ⟨hFaithful, hAlong⟩, hThrown⟩

variable (build) in
/-- Every answer uses up an attempt or ends the loop; the attempts of both requests
of a read are counted. -/
theorem resume_inLoop (hTotal : 0 < total) (current : Nat) (point : Point Account Value)
    (answer : Answer Account Value) (h : InLoop total point) :
    InLoop total ((program total build).resume current point answer).point ∧
      attemptsLeft total ((program total build).resume current point answer).point ≤
        attemptsLeft total point - 1 := by
  cases point with
  | awaiting request attempt url =>
      have hLess : attempt < total := h
      cases hError : answer.error with
      | none =>
          rw [resume_answered hError]
          match request with
          | .getAccount .loadAccount => exact ⟨trivial, Nat.zero_le _⟩
          | .simulateTransaction method => exact ⟨trivial, Nat.zero_le _⟩
          | .getAccount (.invokeRead method) =>
              refine ⟨trivial, ?_⟩
              show 1 + total ≤ total - attempt + 1 + total - 1
              omega
      | some e =>
          by_cases hThrows : e.transport = false ∨ attempt = total - 1
          · rw [resume_gives_up hError hThrows]
            exact ⟨trivial, Nat.zero_le _⟩
          · have hTransport : e.transport = true := by
              simpa using fun h => hThrows (.inl h)
            have hLeft : attempt + 1 < total := by omega
            rw [resume_rotates hError hTransport hLeft]
            refine ⟨hLeft, ?_⟩
            match request with
            | .getAccount .loadAccount =>
                show total - (attempt + 1) ≤ total - attempt - 1
                omega
            | .simulateTransaction method =>
                show total - (attempt + 1) ≤ total - attempt - 1
                omega
            | .getAccount (.invokeRead method) =>
                show total - (attempt + 1) + 1 + total ≤ total - attempt + 1 + total - 1
                omega
  | loaded method url source =>
      cases hBuilt : build method source with
      | error e =>
          have hResume : (program total build).resume current (.loaded method url source) answer =
              ⟨current, .finished (.unbuilt url (sorobanNetworkError method .build e)), ()⟩ := by
            show (match build method source with
              | .error e => _
              | .ok _ => _) = _
            rw [hBuilt]
          rw [hResume]
          exact ⟨trivial, Nat.zero_le _⟩
      | ok built =>
          have hResume : (program total build).resume current (.loaded method url source) answer =
              ⟨current, .awaiting (.simulateTransaction method) 0 current, ()⟩ := by
            show (match build method source with
              | .error e => _
              | .ok _ => _) = _
            rw [hBuilt]
          rw [hResume]
          refine ⟨hTotal, ?_⟩
          show total - 0 ≤ 1 + total - 1
          omega
  | finished ended => exact ⟨trivial, Nat.zero_le _⟩

/-- A read has no more attempts than candidates for each of its two requests, and
one stretch between them. -/
theorem attemptsLeft_le {point : Point Account Value} :
    attemptsLeft total point ≤ 2 * total + 1 := by
  match point with
  | .awaiting (.getAccount .loadAccount) attempt _ =>
      show total - attempt ≤ 2 * total + 1
      omega
  | .awaiting (.simulateTransaction _) attempt _ =>
      show total - attempt ≤ 2 * total + 1
      omega
  | .awaiting (.getAccount (.invokeRead _)) attempt _ =>
      show total - attempt + 1 + total ≤ 2 * total + 1
      omega
  | .loaded _ _ _ =>
      show 1 + total ≤ 2 * total + 1
      omega
  | .finished _ => exact Nat.zero_le _

/-- A call that has used up its attempts is at its end. -/
theorem finished_of_attemptsLeft {point : Point Account Value} (h : InLoop total point)
    (hLeft : attemptsLeft total point = 0) : ∃ ended, point = .finished ended := by
  match point, h, hLeft with
  | .awaiting (.getAccount .loadAccount) attempt _, h, hLeft =>
      have hLess : attempt < total := h
      have hNone : total - attempt = 0 := hLeft
      omega
  | .awaiting (.simulateTransaction _) attempt _, h, hLeft =>
      have hLess : attempt < total := h
      have hNone : total - attempt = 0 := hLeft
      omega
  | .awaiting (.getAccount (.invokeRead _)) attempt _, h, hLeft =>
      have hNone : total - attempt + 1 + total = 0 := hLeft
      omega
  | .loaded _ _ _, _, hLeft =>
      have hNone : 1 + total = 0 := hLeft
      omega
  | .finished ended, _, _ => exact ⟨ended, rfl⟩

variable (build dead) in
/-- The local assertion behind termination: a loop counts its attempts itself,
so that no other loop can take one away or add one. -/
theorem inLoop_outline (hTotal : 0 < total) :
    Outline
      (program total build :
        Program Nat (Point Account Value) Call (Answer Account Value) Empty Unit)
      (Faithful dead) (fun _ _ => True) (fun _ _ point => InLoop total point) where
  start := fun _ _ _ _ hCalls _ => ⟨trivial, hTotal, hCalls⟩
  resume := by
    intro past s number point answer _ hCalls hPoint _
    obtain ⟨hOwn, -⟩ := resume_inLoop build hTotal s.shared point answer
      (hCalls point (List.mem_of_getElem? hPoint))
    exact ⟨trivial, hOwn, fun other l _ hOther => hCalls l (List.mem_of_getElem? hOther)⟩
  event := fun _ _ e => nomatch e
  idle := fun _ _ _ => ⟨trivial, fun _ hPoint => hPoint⟩

/-- Every loop runs to its end. As long as every loop that fails can still come
to a healthy candidate from where the shared URL is rotated to, no loop throws
and every call has its answers from healthy candidates. Once it cannot, there
is a continuation in which it throws. -/
theorem failover_completeness (hTotal : 2 ≤ total) (hHealthy : ∃ url < total, ¬ dead url)
    (build : String → Account → Except String Unit) {current : Nat} (hCurrent : current < total)
    (as : List (Action Call (Answer Account Value) Empty))
    (hAlong : Along (step (program total build)) (Faithful dead) ⟨current, []⟩ as) :
    (∀ number more,
      number < (final (step (program total build)) ⟨current, []⟩ as).calls.length →
      2 * total + 1 ≤ resumes number more →
      ∃ ended, (final (step (program total build)) ⟨current, []⟩ (as ++ more)).calls[number]? =
        some (.finished ended)) ∧
    (Along (step (program total build)) (InReach total dead) ⟨current, []⟩ as →
      ∀ point ∈ (final (step (program total build)) ⟨current, []⟩ as).calls, Served dead point) ∧
    ∀ a, Faithful dead (final (step (program total build)) ⟨current, []⟩ as) a →
      ¬ InReach total dead (final (step (program total build)) ⟨current, []⟩ as) a →
      ∃ more, Along (step (program total build)) (Faithful dead) ⟨current, []⟩ (as ++ a :: more) ∧
        ¬ ∀ point ∈ (final (step (program total build)) ⟨current, []⟩ (as ++ a :: more)).calls,
          Served dead point := by
  have hPositive : 0 < total := by omega
  refine ⟨?_, ?_, ?_⟩
  · intro number more hNumber hResumes
    obtain ⟨-, hLoops⟩ := (inLoop_outline build dead hPositive).along trivial
      as hAlong
    obtain ⟨after, hAfter, hLoop, hLeft⟩ := measure_resumes (P := program total build)
      (fun shared point answer h => (resume_inLoop build hPositive shared point answer h).1)
      (fun shared point answer h => (resume_inLoop build hPositive shared point answer h).2)
      (List.getElem?_eq_getElem hNumber) (hLoops _ (List.getElem_mem hNumber)) more
    have hMost : attemptsLeft total
        (final (step (program total build)) ⟨current, []⟩ as).calls[number] ≤ 2 * total + 1 :=
      attemptsLeft_le
    obtain ⟨ended, rfl⟩ := finished_of_attemptsLeft hLoop (by omega)
    refine ⟨ended, ?_⟩
    rw [final_append]
    exact hAfter
  · intro hReach
    have hBoth : Along (step (program total build))
        (fun s a => Faithful dead s a ∧ InReach total dead s a) ⟨current, []⟩ as :=
      (along_and _ _ _ _ as).mpr ⟨hAlong, hReach⟩
    obtain ⟨-, hCalls⟩ := (hopeful_outline build hPositive hHealthy).along hCurrent
      as hBoth
    exact fun point hPoint => (hCalls point hPoint).served
  · intro a hFaithful hBreak
    obtain ⟨more, hMore, hThrown⟩ := out_of_reach build hPositive hFaithful hBreak
    refine ⟨more, ?_, ?_⟩
    · rw [along_append]
      exact ⟨hAlong, hMore⟩
    · rw [final_append]
      exact hThrown

def noAnswer : Answer Unit Unit := ⟨some ⟨"Network Error", true⟩, (), .success none⟩

/-- The first read has failed and is at its second attempt. -/
def twoReads : List (Action Call (Answer Unit Unit) Empty) :=
  [.start (.invokeRead "get_vault"), .start (.invokeRead "get_vault"), .resume 0 noAnswer]

def twoCandidates : Program Nat (Point Unit Unit) Call (Answer Unit Unit) Empty Unit :=
  program 2 fun _ _ => .ok ()

theorem twoReads_faithful : Along (step twoCandidates) (Faithful (· = 0)) ⟨0, []⟩ twoReads :=
  ⟨trivial, trivial, faithful_of_dead rfl rfl rfl rfl, trivial⟩

/-- Each read rotates the URL once, so that the second is back at the dead
candidate with its last attempt. -/
theorem healthy_candidate_skipped :
    Along (step twoCandidates) (Faithful (· = 0)) ⟨0, []⟩
      (twoReads ++ [.resume 1 noAnswer, .resume 1 noAnswer]) ∧
    (final (step twoCandidates) ⟨0, []⟩
      (twoReads ++ [.resume 1 noAnswer, .resume 1 noAnswer])).calls[1]? =
        some (.finished (.gaveUp (.soroban
          (sorobanNetworkError "get_vault" .build "Network Error")))) ∧
    ¬ ∀ point ∈ (final (step twoCandidates) ⟨0, []⟩
      (twoReads ++ [.resume 1 noAnswer, .resume 1 noAnswer])).calls, Served (· = 0) point := by
  refine ⟨?_, rfl, ?_⟩
  · rw [along_append]
    exact ⟨twoReads_faithful, faithful_of_dead rfl rfl rfl rfl, faithful_of_dead rfl rfl rfl rfl,
      trivial⟩
  · exact not_served 1 rfl

/-- Up to there all is well; the failure of the second read is out of reach. -/
theorem failover_completeness_sample :
    (∀ point ∈ (final (step twoCandidates) ⟨0, []⟩ twoReads).calls, Served (· = 0) point) ∧
    ∃ more, Along (step twoCandidates) (Faithful (· = 0)) ⟨0, []⟩
        (twoReads ++ .resume 1 noAnswer :: more) ∧
      ¬ ∀ point ∈ (final (step twoCandidates) ⟨0, []⟩
        (twoReads ++ .resume 1 noAnswer :: more)).calls, Served (· = 0) point := by
  obtain ⟨-, hServed, hBreaks⟩ := failover_completeness (Nat.le_refl 2)
    ⟨1, by decide, by decide⟩ (fun _ _ => .ok ()) (by decide) twoReads twoReads_faithful
  refine ⟨hServed ⟨trivial, trivial, ?_, trivial⟩, hBreaks _ ?_ ?_⟩
  · intro request attempt url hPoint _ _
    cases hPoint
    exact ⟨0, by decide, by decide⟩
  · exact faithful_of_dead rfl rfl rfl rfl
  · intro hReach
    obtain ⟨k, hLess, hAlive⟩ := hReach (.getAccount (.invokeRead "get_vault")) 0 0 rfl rfl (by decide)
    obtain rfl : k = 0 := by omega
    exact hAlive rfl

end Failover
