import StellarTimelock.Client.StreamCompleteness

/-! Dropping the caches among fetches: how old the data is that a later fetch
returns, and which candidates have failed a fetch that turns to the disk. Moments
are counted in invalidations; when the RPC reads what it answers with is anywhere
between the request and the answer. -/
namespace EventFetch

open SorobanClient Interleaving Execution FloatingPoint

variable {Address : Type} {key : StrKey Address}

/-- The moments recorded beside the shared variables: now, and when the oldest
data of the memory cache, of a disk entry and of a disk write under way was
read. `fellBack` says that the memory cache was filled from the disk with data
older than the last invalidation, by a fetch that every candidate had failed. -/
structure Ages where
  now : Nat
  cached : Nat
  fellBack : Bool
  disk : String → Nat
  pending : List Nat
  served : Nat

/-- What is recorded beside a fetch: when it started, when it asked last and
whom, the oldest data that it has, the candidates that have failed the request
it is at, and whether these were all when it turned to the disk. -/
structure Trail where
  started : Nat
  asked : Nat
  oldest : Nat
  candidate : Deployment × Nat
  failed : List (Deployment × Nat)
  exhausted : Bool

/-- A fetch as it starts. One that is answered from the memory cache has its
data at once. -/
def Trail.start (s : Shared) (g : Ages) (point : Point) : Trail where
  started := g.now
  asked := g.now
  oldest := match point with
    | .finished _ => g.cached
    | _ => g.now
  candidate := (s.active, s.rpcUrl)
  failed := []
  exhausted := false

/-- A new request is sent to the current candidate. -/
def Trail.request (t : Trail) (s : Shared) (g : Ages) : Trail :=
  { t with asked := g.now, candidate := (s.active, s.rpcUrl), failed := [] }

/-- The candidate has failed, and the request is sent to another. -/
def Trail.retry (t : Trail) (s : Shared) (g : Ages) : Trail :=
  { t with
    asked := g.now
    candidate := (s.active, s.rpcUrl)
    failed := t.candidate :: t.failed }

/-- Every candidate of the deployment has failed the request. -/
def everyCandidateFailed (deployment : Deployment) (failed : List (Deployment × Nat)) : Bool :=
  (List.range deployment.candidates).all fun url => (deployment, url) ∈ failed

/-- The candidate has failed, and the fetch turns to the disk. -/
def Trail.giveUp (t : Trail) (s : Shared) : Trail :=
  { t with
    failed := t.candidate :: t.failed
    exhausted := everyCandidateFailed s.active (t.candidate :: t.failed) }

/-- When the page of this answer was read; `serves` is the RPC's choice. -/
def readMoment (serves : Nat → Nat) (g : Ages) (t : Trail) : Nat :=
  max t.asked (min (serves g.served) g.now)

/-- The oldest of the pages of a fetch, with one more. -/
def oldestWith (serves : Nat → Nat) (g : Ages) (t : Trail) (loop : PageLoop) : Nat :=
  if loop.page = 0 then readMoment serves g t else min t.oldest (readMoment serves g t)

/-- What a stretch does to the records, given what it has come to. -/
def recordResume (serves : Nat → Nat) (point : Point) (answer : Answer Address)
    (turn : Turn Shared Point Unit) (g : Ages) (t : Trail) : Ages × Trail :=
  match point with
  | .latest _ _ =>
      match turn.point with
      | .readingDisk _ _ => (g, t.giveUp turn.shared)
      | .latest _ _ => (g, t.retry turn.shared g)
      | _ => (g, t.request turn.shared g)
  | .page _ _ _ loop =>
      match turn.point with
      | .readingDisk _ _ => (g, t.giveUp turn.shared)
      | .finished (.ok _) =>
          let oldest := oldestWith serves g t loop
          ({ g with
              cached := oldest
              fellBack := false
              pending := g.pending ++ [oldest]
              served := g.served + 1 },
            { t with oldest := oldest })
      | _ =>
          -- The next page, or the same again after an attempt that failed.
          if answer.error = none then
            ({ g with served := g.served + 1 },
              { t.request turn.shared g with oldest := oldestWith serves g t loop })
          else (g, t.retry turn.shared g)
  | .readingDisk diskKey _ => (g, { t with oldest := g.disk diskKey })
  | .diskRead (some _) _ =>
      ({ g with cached := t.oldest, fellBack := t.exhausted && t.oldest < g.now }, t)
  | _ => (g, t)

def recordEvent (s : Shared) (g : Ages) : Change → Ages
  | .switchDeployment _ | .moveRpcUrl _ => g
  | .invalidateAllCaches => { g with now := g.now + 1, pending := g.pending ++ [g.now] }
  | .settle number succeeds =>
      match s.pending[number]?, g.pending[number]? with
      | some operation, some moment =>
          let disk := match succeeds, operation with
            | true, .setItem diskKey _ => Function.update g.disk diskKey moment
            | _, _ => g.disk
          { g with disk := disk, pending := g.pending.eraseIdx number }
      | _, _ => g

def ages (serves : Nat → Nat) :
    Auxiliary Shared Point Int (Answer Address) Change Unit Ages Trail where
  start s _ turn g := (g, Trail.start s g turn.point)
  resume _ := recordResume serves
  event s e g := recordEvent s g e

section Fetch

variable [Arithmetic]

def agedProgram (key : StrKey Address) (serves : Nat → Nat) :
    Program (Shared × Ages) (Point × Trail) Int (Answer Address) Change Unit :=
  recorded (program key) (ages serves)

abbrev Aged := System (Shared × Ages) (Point × Trail)

/-- Before anything was dropped. -/
def agedInitial (active : Deployment) (disk : String → Option PersistedEvents) : Aged :=
  ⟨(initial active disk, ⟨0, 0, false, fun _ => 0, [], 0⟩), []⟩

/-- A fetch that returns events has read them after the last invalidation
before its start, unless every candidate has failed it. -/
def Fresh (call : Point × Trail) : Prop :=
  ∀ events, call.1 = .finished (.ok events) →
    call.2.started ≤ call.2.oldest ∨ call.2.exhausted = true

/-- A page that can be read and after which none is asked for. -/
def LastPage (key : StrKey Address) (loop : PageLoop) (answer : Answer Address) : Prop :=
  ∃ parsed, answer.error = none ∧ parseEvents key answer.events = .ok parsed ∧
    (answer.cursor.filter (· ≠ "") = none ∨ answer.cursor.filter (· ≠ "") = loop.cursor ∨
      maxPages ≤ loop.page + 1 ∨ maxEvents ≤ loop.events.length + parsed.length)

/-- The memory cache is filled from the RPC only with data read after the last
invalidation, and from the disk only so or after every candidate has failed; and
no fetch starts soon after it was filled from the disk with older data. -/
def FillsFresh (key : StrKey Address) (serves : Nat → Nat) (s : Aged) :
    Action Int (Answer Address) Change → Prop
  | .start now => ∀ cache, s.shared.1.eventCache = some cache → now - cache.time < eventCacheMs →
      s.shared.2.fellBack = false
  | .resume number answer => ∀ point trail, s.calls[number]? = some (point, trail) →
      (∀ total attempt request loop, point = .page total attempt request loop →
        LastPage key loop answer → s.shared.2.now ≤ oldestWith serves s.shared.2 trail loop) ∧
      (∀ disk error, point = .diskRead (some disk) error →
        s.shared.2.now ≤ trail.oldest ∨ trail.exhausted = true)
  | .event _ => True

theorem LastPage.answered {loop : PageLoop} {answer : Answer Address}
    (h : LastPage key loop answer) : answer.error = none := by
  obtain ⟨parsed, hNoError, -⟩ := h
  exact hNoError

/-- A page that is answered: it is the last, it cannot be read, or there is one
more. -/
theorem readPage_cases (key : StrKey Address) (s : Shared) (total : Nat) (request : EventsRequest)
    (loop : PageLoop) {answer : Answer Address} (hNoError : answer.error = none) :
    (LastPage key loop answer ∧
      ∃ loop', readPage key s total request loop answer = complete s answer.now loop') ∨
    ¬ LastPage key loop answer ∧
      ((∃ e, readPage key s total request loop answer = ⟨s, .finished (.error (.thrown e)), ()⟩) ∨
        ∃ loop', loop'.page = loop.page + 1 ∧
          readPage key s total request loop answer = requestPage s total 0 loop') := by
  unfold readPage
  cases hParsed : parseEvents key answer.events with
  | error e =>
      right
      refine ⟨?_, Or.inl ⟨e, rfl⟩⟩
      rintro ⟨parsed, -, hRead, -⟩
      rw [hParsed] at hRead
      cases hRead
  | ok parsed =>
      have hLength : (loop.events ++ parsed.map (Owned.mk request.contractId)).length =
          loop.events.length + parsed.length := by
        rw [List.length_append, List.length_map]
      simp only
      split
      · next hEnd =>
          left
          refine ⟨⟨parsed, hNoError, hParsed, ?_⟩, _, rfl⟩
          exact hEnd.imp_right Or.inl
      · next hMore =>
          obtain ⟨hSome, hNew⟩ := not_or.mp hMore
          split
          · next hRoom =>
              right
              refine ⟨?_, Or.inr ⟨_, rfl, rfl⟩⟩
              rintro ⟨parsed', -, hRead, hLast⟩
              rw [hParsed] at hRead
              cases hRead
              rw [hLength] at hRoom
              rcases hLast with h | h | h | h
              · exact hSome h
              · exact hNew h
              · exact Nat.not_lt.mpr h hRoom.1
              · exact Nat.not_lt.mpr h hRoom.2
          · next hFull =>
              left
              refine ⟨⟨parsed, hNoError, hParsed, ?_⟩, _, rfl⟩
              rw [hLength] at hFull
              rcases not_and_or.mp hFull with h | h
              · exact Or.inr (Or.inr (Or.inl (Nat.not_lt.mp h)))
              · exact Or.inr (Or.inr (Or.inr (Nat.not_lt.mp h)))

structure CacheAged (s : Shared × Ages) : Prop where
  cached : s.1.eventCache ≠ none → (s.2.now ≤ s.2.cached ↔ s.2.fellBack = false)
  aligned : s.2.pending.length = s.1.pending.length

structure CallAged (s : Shared × Ages) (call : Point × Trail) : Prop where
  started : call.2.started ≤ s.2.now
  asked : ∀ total attempt request loop, call.1 = .page total attempt request loop →
    call.2.started ≤ call.2.asked ∧ (loop.page ≠ 0 → call.2.started ≤ call.2.oldest)
  fresh : Fresh call

/-- What one stretch of a fetch keeps. -/
structure KeepsAges (s : Shared × Ages)
    (turn : Turn (Shared × Ages) (Point × Trail) Unit) : Prop where
  now : turn.shared.2.now = s.2.now
  cache : CacheAged turn.shared
  call : CallAged turn.shared turn.point

variable {serves : Nat → Nat} {s : Shared} {g : Ages} {t : Trail}

/-- What one stretch of the recorded program does: the stretch of the fetch
itself, and beside it the bookkeeping, which reads the fetch and does not
influence it. -/
theorem aged_resume (s : Shared) (g : Ages) (point : Point) (t : Trail) (answer : Answer Address) :
    (agedProgram key serves).resume (s, g) (point, t) answer =
      ⟨((resume key s point answer).shared,
          (recordResume serves point answer (resume key s point answer) g t).1),
        ((resume key s point answer).point,
          (recordResume serves point answer (resume key s point answer) g t).2), ()⟩ := rfl

/-- It holds no page and has returned nothing. -/
def Point.waits : Point → Bool
  | .page _ _ _ _ => false
  | .finished (.ok _) => false
  | _ => true

omit [Arithmetic] in
/-- A fetch that only waits for its answer, with no page read, owes nothing but
to have started by now. -/
theorem callAged_waits {point : Point} (hWaits : point.waits = true) (hStarted : t.started ≤ g.now) :
    CallAged (s, g) (point, t) := by
  refine ⟨hStarted, ?_, ?_⟩
  · rintro total attempt request loop rfl
    cases hWaits
  · rintro events rfl
    cases hWaits

omit [Arithmetic] in
/-- A fetch between two pages owes that it started before it asked, and that the
oldest page it has read is no older than its start. -/
theorem callAged_page (hStarted : t.started ≤ g.now) {total attempt : Nat}
    {request : EventsRequest} {loop : PageLoop} (hAsked : t.started ≤ t.asked)
    (hOldest : loop.page ≠ 0 → t.started ≤ t.oldest) :
    CallAged (s, g) (.page total attempt request loop, t) := by
  refine ⟨hStarted, ?_, fun events h => (by cases h)⟩
  intro total' attempt' request' loop' h
  cases h
  exact ⟨hAsked, hOldest⟩

omit [Arithmetic] in
/-- A page is read no earlier than the start of the fetch that asked for it,
since a node reads at the earliest when it is asked. -/
theorem started_le_readMoment (serves : Nat → Nat) (g : Ages) (h : t.started ≤ t.asked) :
    t.started ≤ readMoment serves g t := le_trans h (le_max_left _ _)

omit [Arithmetic] in
/-- The same for the oldest of all the pages of a fetch, the one that has just
come included. -/
theorem started_le_oldestWith (serves : Nat → Nat) (g : Ages) {loop : PageLoop}
    (hAsked : t.started ≤ t.asked) (hOldest : loop.page ≠ 0 → t.started ≤ t.oldest) :
    t.started ≤ oldestWith serves g t loop := by
  have hRead := started_le_readMoment serves g hAsked
  unfold oldestWith
  split
  · exact hRead
  · next hPage => exact le_min (hOldest hPage) hRead

variable (key serves) in
theorem aged_start (s : Shared) (g : Ages) (now : Int) :
    (agedProgram key serves).start (s, g) now =
      ⟨((fetchContractEvents s now).shared, g), ((fetchContractEvents s now).point,
        Trail.start s g (fetchContractEvents s now).point), ()⟩ := rfl

variable (key serves) in
/-- Starting a fetch keeps the ages in order if a memory cache that is young
enough to answer it does not come from a fallback. -/
theorem start_keepsAges (hCache : CacheAged (s, g)) (now : Int)
    (hFresh : ∀ cache, s.eventCache = some cache → now - cache.time < eventCacheMs →
      g.fellBack = false) :
    KeepsAges (s, g) ((agedProgram key serves).start (s, g) now) := by
  rw [aged_start]
  unfold fetchContractEvents
  split
  · next cache hYoung =>
      obtain ⟨hSome, hTime⟩ := Option.filter_eq_some_iff.mp hYoung
      refine ⟨rfl, hCache, Nat.le_refl _, fun _ _ _ _ h => (by cases h), ?_⟩
      intro events _
      left
      show g.now ≤ g.cached
      have hFilled : s.eventCache ≠ none := by
        rw [hSome]
        exact Option.some_ne_none cache
      exact (hCache.cached hFilled).mpr (hFresh cache hSome (of_decide_eq_true hTime))
  · exact ⟨rfl, hCache, callAged_waits rfl (Nat.le_refl _)⟩

/-- An answer that is no error takes the fetch on to reading its page. -/
theorem resume_page_answered {total attempt : Nat} {request : EventsRequest} {loop : PageLoop}
    {answer : Answer Address} (h : answer.error = none) :
    resume key s (.page total attempt request loop) answer =
      readPage key s total request loop answer := by
  simp only [resume, h]

/-- An attempt that is answered with a page keeps the ages in order, if a last
page, which fills the memory cache, leaves the fetch with nothing from before
the last invalidation. -/
theorem answered_keepsAges (hCache : CacheAged (s, g)) {total attempt : Nat}
    {request : EventsRequest} {loop : PageLoop}
    (hCall : CallAged (s, g) (.page total attempt request loop, t)) {answer : Answer Address}
    (hNoError : answer.error = none)
    (hLast : LastPage key loop answer → g.now ≤ oldestWith serves g t loop) :
    KeepsAges (s, g) ((agedProgram key serves).resume (s, g)
      (.page total attempt request loop, t) answer) := by
  have hStarted : t.started ≤ g.now := hCall.started
  obtain ⟨hAsked, hOldest⟩ := hCall.asked total attempt request loop rfl
  have hOwn := started_le_oldestWith serves g hAsked hOldest
  rw [aged_resume, resume_page_answered hNoError]
  rcases readPage_cases key s total request loop hNoError with
    ⟨hEnd, loop', hRead⟩ | ⟨-, ⟨e, hRead⟩ | ⟨loop', hNext, hRead⟩⟩
  · have hNew := hLast hEnd
    rw [hRead]
    refine ⟨rfl, ⟨fun _ => iff_of_true hNew rfl, ?_⟩, hStarted, fun _ _ _ _ h => (by cases h),
      fun _ _ => Or.inl hOwn⟩
    show (g.pending ++ [_]).length = (s.pending ++ [_]).length
    rw [List.length_append, List.length_append, hCache.aligned]
    rfl
  · rw [hRead]
    simp only [recordResume, hNoError, if_true]
    exact ⟨rfl, ⟨hCache.cached, hCache.aligned⟩, callAged_waits rfl hStarted⟩
  · rw [hRead]
    simp only [recordResume, requestPage, hNoError, if_true]
    refine ⟨rfl, ⟨hCache.cached, hCache.aligned⟩, ?_⟩
    apply callAged_page
    · exact hStarted
    · exact hStarted
    · exact fun _ => hOwn

/-- An attempt that fails is followed by another one or by a read of the disk,
and neither touches the memory cache. -/
theorem failed_keepsAges (hCache : CacheAged (s, g)) {total attempt : Nat}
    {request : EventsRequest} {loop : PageLoop}
    (hCall : CallAged (s, g) (.page total attempt request loop, t)) {answer : Answer Address}
    {e : RpcError} (hError : answer.error = some e) :
    KeepsAges (s, g) ((agedProgram key serves).resume (s, g)
      (.page total attempt request loop, t) answer) := by
  have hStarted : t.started ≤ g.now := hCall.started
  obtain ⟨-, hOldest⟩ := hCall.asked total attempt request loop rfl
  have hResume : resume key s (.page total attempt request loop) answer =
      if e.transport = false ∨ attempt = total - 1 then
        readDiskCache s (sorobanNetworkError "getEvents" .simulate e.message)
      else requestPage s.rotateRpcUrl total (attempt + 1) loop := by
    simp only [resume, hError]
  rw [aged_resume, hResume]
  split
  · exact ⟨rfl, hCache, callAged_waits rfl hStarted⟩
  · simp only [recordResume, requestPage, hError, reduceCtorEq, if_false]
    refine ⟨rfl, ⟨hCache.cached, hCache.aligned⟩, ?_⟩
    apply callAged_page
    · exact hStarted
    · exact hStarted
    · exact hOldest

/-- A stretch of a fetch keeps the ages in order if the last page that it reads
is fresh and what it takes from the disk is fresh or the last resort of an
exhausted request. -/
theorem resume_keepsAges (hCache : CacheAged (s, g)) {point : Point}
    (hCall : CallAged (s, g) (point, t)) (answer : Answer Address)
    (hLast : ∀ total attempt request loop, point = .page total attempt request loop →
      LastPage key loop answer → g.now ≤ oldestWith serves g t loop)
    (hDisk : ∀ disk error, point = .diskRead (some disk) error →
      g.now ≤ t.oldest ∨ t.exhausted = true) :
    KeepsAges (s, g) ((agedProgram key serves).resume (s, g) (point, t) answer) := by
  have hStarted : t.started ≤ g.now := hCall.started
  cases point with
  | latest total attempt =>
      rw [aged_resume]
      cases hError : answer.error with
      | none =>
          have hResume : resume key s (.latest total attempt) answer =
              requestPage s total 0 ⟨answer.sequence, [], none, 0⟩ := by
            simp only [resume, hError]
          rw [hResume]
          refine ⟨rfl, hCache, ?_⟩
          apply callAged_page
          · exact hStarted
          · exact hStarted
          · exact fun h => absurd rfl h
      | some e =>
          have hResume : resume key s (.latest total attempt) answer =
              if e.transport = false ∨ attempt = total - 1 then
                readDiskCache s (sorobanNetworkError "getEvents" .build e.message)
              else ⟨s.rotateRpcUrl, .latest total (attempt + 1), ()⟩ := by
            simp only [resume, hError]
          rw [hResume]
          split
          · exact ⟨rfl, hCache, callAged_waits rfl hStarted⟩
          · exact ⟨rfl, ⟨hCache.cached, hCache.aligned⟩, callAged_waits rfl hStarted⟩
  | page total attempt request loop =>
      cases hError : answer.error with
      | none => exact answered_keepsAges hCache hCall hError (hLast total attempt request loop rfl)
      | some e => exact failed_keepsAges hCache hCall hError
  | readingDisk diskKey error =>
      rw [aged_resume]
      refine ⟨rfl, hCache, ?_⟩
      apply callAged_waits
      · simp only [resume]
        split <;> rfl
      · exact hStarted
  | diskItem parsed error =>
      rw [aged_resume]
      exact ⟨rfl, hCache, callAged_waits rfl hStarted⟩
  | diskRead disk error =>
      rw [aged_resume]
      cases disk with
      | none => exact ⟨rfl, hCache, callAged_waits rfl hStarted⟩
      | some disk =>
          have hData := hDisk disk error rfl
          refine ⟨rfl, ⟨fun _ => ?_, hCache.aligned⟩, hStarted, fun _ _ _ _ h => (by cases h), ?_⟩
          · show g.now ≤ t.oldest ↔ (t.exhausted && decide (t.oldest < g.now)) = false
            rcases hData with hNew | hExhausted
            · simp [Nat.not_lt.mpr hNew, hNew]
            · simp [hExhausted]
          · exact fun _ _ => hData.imp_left (le_trans hStarted)
  | finished result =>
      rw [aged_resume]
      exact ⟨rfl, hCache, hStarted, fun _ _ _ _ h => (by cases h), hCall.fresh⟩

omit [Arithmetic] in
/-- An event keeps the ages of the caches in step with the caches themselves,
and the present moment never moves back. -/
theorem event_keepsAges (hCache : CacheAged (s, g)) (e : Change) :
    CacheAged ((change s e).1, recordEvent s g e) ∧ g.now ≤ (recordEvent s g e).now := by
  cases e with
  | switchDeployment deployment =>
      exact ⟨⟨fun h => absurd rfl h, hCache.aligned⟩, Nat.le_refl _⟩
  | moveRpcUrl url => exact ⟨⟨hCache.cached, hCache.aligned⟩, Nat.le_refl _⟩
  | invalidateAllCaches =>
      refine ⟨⟨fun h => absurd rfl h, ?_⟩, Nat.le_succ _⟩
      show (g.pending ++ [_]).length = (s.pending ++ [_]).length
      rw [List.length_append, List.length_append, hCache.aligned]
      rfl
  | settle number succeeds =>
      cases hOperation : s.pending[number]? with
      | none =>
          simp only [change, recordEvent, hOperation]
          exact ⟨hCache, Nat.le_refl _⟩
      | some operation =>
          have hBound : number < g.pending.length := by
            rw [hCache.aligned]
            exact (List.getElem?_eq_some_iff.mp hOperation).1
          simp only [change, recordEvent, hOperation, List.getElem?_eq_getElem hBound]
          refine ⟨⟨hCache.cached, ?_⟩, Nat.le_refl _⟩
          show (g.pending.eraseIdx number).length = (s.pending.eraseIdx number).length
          rw [List.length_eraseIdx, List.length_eraseIdx, hCache.aligned]

omit [Arithmetic] in
/-- A fetch that is in order stays so while the clock goes on. -/
theorem CallAged.later {before after : Shared × Ages} {call : Point × Trail}
    (h : CallAged before call) (hNow : before.2.now ≤ after.2.now) : CallAged after call :=
  ⟨le_trans h.started hNow, h.asked, h.fresh⟩

/-- The outline of the invariant: the memory cache and each fetch are in order
after every stretch that fills the cache with fresh events only. -/
theorem ages_outline : Outline (agedProgram key serves) (FillsFresh key serves)
    (fun _ s => CacheAged s) (fun _ s call => CallAged s call) where
  start past s now hCache hCalls hFresh := by
    have hKeeps := start_keepsAges key serves hCache now hFresh
    exact ⟨hKeeps.cache, hKeeps.call,
      fun call hCall => (hCalls call hCall).later (Nat.le_of_eq hKeeps.now.symm)⟩
  resume past s number call answer hCache hCalls hCall hFresh := by
    obtain ⟨hLast, hDisk⟩ := hFresh call.1 call.2 hCall
    have hKeeps := resume_keepsAges hCache
      (hCalls call (List.mem_of_getElem? hCall)) answer hLast hDisk
    exact ⟨hKeeps.cache, hKeeps.call,
      fun other l _ hOther =>
        (hCalls l (List.mem_of_getElem? hOther)).later (Nat.le_of_eq hKeeps.now.symm)⟩
  event past s e hCache hCalls _ := by
    obtain ⟨hAfter, hNow⟩ := event_keepsAges hCache e
    exact ⟨hAfter, fun call hCall => (hCalls call hCall).later hNow⟩
  idle past s hCache := ⟨hCache, fun _ h => h⟩

/-- A fetch that starts while a memory cache from before the last invalidation
is still young returns it. -/
theorem stale_start {s : Aged} {cache : EventCache} {now : Int}
    (hCache : s.shared.1.eventCache = some cache) (hYoung : now - cache.time < eventCacheMs)
    (hStale : s.shared.2.cached < s.shared.2.now) :
    ¬ ∀ call ∈ (step (agedProgram key serves) s (.start now)).1.calls, Fresh call := by
  have hFetch : fetchContractEvents s.shared.1 now = ⟨s.shared.1, .finished (.ok cache.data), ()⟩ := by
    unfold fetchContractEvents
    rw [hCache, Option.filter_some, if_pos (decide_eq_true hYoung)]
  have hPoint : ((agedProgram key serves).start s.shared now).point =
      (.finished (.ok cache.data),
        Trail.start s.shared.1 s.shared.2 (.finished (.ok cache.data))) := by
    have hStart := aged_start key serves s.shared.1 s.shared.2 now
    rw [hFetch] at hStart
    exact congrArg Turn.point hStart
  intro hFresh
  have hNew := hFresh ((agedProgram key serves).start s.shared now).point
    (List.mem_append_right _ (List.mem_singleton.mpr rfl))
  rw [hPoint] at hNew
  rcases hNew cache.data rfl with hOld | hExhausted
  · exact Nat.not_le.mpr hStale hOld
  · cases hExhausted

/-- Once a stretch has filled the memory cache with data from before the last
invalidation, a fetch that starts at once returns them. -/
theorem stale_fill {s : Aged} {number : Nat} {call : Point × Trail} {answer : Answer Address}
    (hCall : s.calls[number]? = some call)
    (hFills : ∃ data, ((agedProgram key serves).resume s.shared call answer).shared.1.eventCache =
      some ⟨answer.now, data⟩)
    (hStale : ((agedProgram key serves).resume s.shared call answer).shared.2.cached <
      ((agedProgram key serves).resume s.shared call answer).shared.2.now) :
    ¬ ∀ call ∈ (final (step (agedProgram key serves)) s
      [.resume number answer, .start answer.now]).calls, Fresh call := by
  obtain ⟨data, hCache⟩ := hFills
  rw [final, step_resume_some hCall]
  have hYoung : answer.now - answer.now < eventCacheMs := by
    rw [Int.sub_self]
    decide
  exact stale_start hCache hYoung hStale

/-- The last page of a fetch fills the memory cache. -/
theorem lastPage_fills (serves : Nat → Nat) (s : Shared) (g : Ages) (t : Trail)
    (total attempt : Nat) (request : EventsRequest) {loop : PageLoop} {answer : Answer Address}
    (hLast : LastPage key loop answer) :
    ∃ loop', (agedProgram key serves).resume (s, g) (.page total attempt request loop, t) answer =
      ⟨((complete s answer.now loop').shared,
          { g with
            cached := oldestWith serves g t loop
            fellBack := false
            pending := g.pending ++ [oldestWith serves g t loop]
            served := g.served + 1 }),
        (.finished (.ok loop'.events), { t with oldest := oldestWith serves g t loop }), ()⟩ := by
  have hNoError := hLast.answered
  rcases readPage_cases key s total request loop hNoError with ⟨-, loop', hRead⟩ | ⟨hMore, -⟩
  · refine ⟨loop', ?_⟩
    rw [aged_resume, resume_page_answered hNoError, hRead]
    rfl
  · exact absurd hLast hMore

/-- What is not fresh is returned by a fetch that starts then. -/
theorem stale_of_unsafe {s : Aged} (hCache : CacheAged s.shared)
    {a : Action Int (Answer Address) Change} (hUnsafe : ¬ FillsFresh key serves s a) :
    ∃ more, ¬ ∀ call ∈ (final (step (agedProgram key serves)) s (a :: more)).calls,
      Fresh call := by
  cases a with
  | event e => exact absurd trivial hUnsafe
  | start now =>
      simp only [FillsFresh, not_forall] at hUnsafe
      obtain ⟨cache, hSome, hYoung, hFell⟩ := hUnsafe
      have hFilled : s.shared.1.eventCache ≠ none := by
        rw [hSome]
        exact Option.some_ne_none cache
      exact ⟨[], stale_start hSome hYoung
        (Nat.not_le.mp fun hNew => hFell ((hCache.cached hFilled).mp hNew))⟩
  | resume number answer =>
      simp only [FillsFresh, not_forall] at hUnsafe
      obtain ⟨point, trail, hCall, hFill⟩ := hUnsafe
      refine ⟨[.start answer.now], ?_⟩
      rcases not_and_or.mp hFill with hPage | hDisk
      · simp only [not_forall, Nat.not_le] at hPage
        obtain ⟨total, attempt, request, loop, rfl, hLast, hStale⟩ := hPage
        obtain ⟨loop', hFills⟩ :=
          lastPage_fills serves s.shared.1 s.shared.2 trail total attempt request hLast
        refine stale_fill hCall ⟨loop'.events, ?_⟩ ?_
        · rw [hFills]
          rfl
        · rw [hFills]
          exact hStale
      · simp only [not_forall, not_or, Nat.not_le] at hDisk
        obtain ⟨disk, error, rfl, hStale, -⟩ := hDisk
        exact stale_fill hCall ⟨disk.events, rfl⟩ hStale

/-- The given attempt of a request is under way. -/
def Point.tries (total attempt : Nat) (point : Point) : Prop :=
  point = .latest total attempt ∨ ∃ request loop, point = .page total attempt request loop

/-- The current candidate was asked, and the candidates that have not failed
are among the next `left`. -/
structure Ahead (s : Shared) (t : Trail) (left : Nat) : Prop where
  candidate : t.candidate = (s.active, s.rpcUrl)
  failed : ∀ url < s.active.candidates, (s.active, url) ∈ t.failed ∨
    ∃ k < left, (s.rpcUrl + k) % s.active.candidates = url

omit [Arithmetic] in
/-- Before the first attempt all candidates are ahead. -/
theorem ahead_first (hCandidate : t.candidate = (s.active, s.rpcUrl))
    (hUrl : s.rpcUrl < s.active.candidates) : Ahead s t s.active.candidates := by
  refine ⟨hCandidate, fun url hLess => Or.inr ?_⟩
  have hReaches : Failover.Reaches s.active.candidates (· ≠ url) s.active.candidates s.rpcUrl :=
    Failover.reaches_total ⟨url, hLess, fun h => h rfl⟩ hUrl
  obtain ⟨k, hk, hAt⟩ := hReaches
  exact ⟨k, hk, not_not.mp hAt⟩

omit [Arithmetic] in
/-- The candidate that is asked has failed, if the rest are ahead of it. -/
theorem Ahead.failed_or {left : Nat} (h : Ahead s t (left + 1))
    (hUrl : s.rpcUrl < s.active.candidates) :
    ∀ url < s.active.candidates, (s.active, url) ∈ t.candidate :: t.failed ∨
      ∃ k < left, (s.rotateRpcUrl.rpcUrl + k) % s.active.candidates = url := by
  intro url hLess
  rcases h.failed url hLess with hFailed | ⟨k, hk, hAt⟩
  · exact Or.inl (List.mem_cons_of_mem _ hFailed)
  · cases k with
    | zero =>
        rw [Nat.add_zero, Nat.mod_eq_of_lt hUrl] at hAt
        rw [h.candidate, hAt]
        exact Or.inl List.mem_cons_self
    | succ k =>
        refine Or.inr ⟨k, by omega, ?_⟩
        exact (Failover.rotateRpcUrl_add s.active.candidates s.rpcUrl k).trans hAt

section Fails

variable {total attempt : Nat} {point : Point} {answer : Answer Address} {e : RpcError}

variable (key serves) in
/-- An attempt fails in transport and there are more: the shared URL is rotated
and the request is made again, while the trail remembers the candidate that
failed. -/
theorem fails_retry (h : point.tries total attempt) (hError : answer.error = some e)
    (hTransport : e.transport = true) (hMore : attempt + 1 < total) (s : Shared) (g : Ages)
    (t : Trail) : ∃ after, after.tries total (attempt + 1) ∧
      (agedProgram key serves).resume (s, g) (point, t) answer =
        ⟨(s.rotateRpcUrl, g), (after, t.retry s.rotateRpcUrl g), ()⟩ := by
  have hGoesOn : ¬ (e.transport = false ∨ attempt = total - 1) := by
    rw [hTransport]
    rintro (hNo | hLast)
    · cases hNo
    · omega
  rcases h with rfl | ⟨request, loop, rfl⟩
  · refine ⟨.latest total (attempt + 1), Or.inl rfl, ?_⟩
    rw [aged_resume]
    simp only [resume, hError, if_neg hGoesOn, recordResume]
  · refine ⟨(requestPage s.rotateRpcUrl total (attempt + 1) loop).point, Or.inr ⟨_, _, rfl⟩, ?_⟩
    rw [aged_resume]
    simp only [resume, hError, if_neg hGoesOn, recordResume, requestPage, reduceCtorEq, if_false]

variable (key serves) in
/-- The last attempt of a request fails: the fetch turns to the disk, and the
trail records whether every candidate of the active deployment has failed it. -/
theorem fails_giveUp (h : point.tries total attempt) (hError : answer.error = some e)
    (hLast : attempt = total - 1) (s : Shared) (g : Ages) (t : Trail) :
    ∃ diskKey error, (agedProgram key serves).resume (s, g) (point, t) answer =
      ⟨(s, g), (.readingDisk diskKey error, t.giveUp s), ()⟩ := by
  have hStops : e.transport = false ∨ attempt = total - 1 := Or.inr hLast
  rcases h with rfl | ⟨request, loop, rfl⟩
  · refine ⟨eventDiskKey s.active.contractId, sorobanNetworkError "getEvents" .build e.message, ?_⟩
    rw [aged_resume]
    simp only [resume, hError, if_pos hStops, recordResume, readDiskCache]
  · refine ⟨eventDiskKey s.active.contractId, sorobanNetworkError "getEvents" .simulate e.message, ?_⟩
    rw [aged_resume]
    simp only [resume, hError, if_pos hStops, recordResume, readDiskCache]

end Fails

/-- A request that no one else disturbs and that fails at every attempt has
been sent to every candidate when the fetch turns to the disk. -/
theorem undisturbed_exhausts {total attempt : Nat} {point : Point} {answers : List (Answer Address)}
    (hTries : point.tries total attempt) (hTotal : s.active.candidates = total)
    (hUrl : s.rpcUrl < total) (hLeft : attempt + answers.length = total) (hSome : answers ≠ [])
    (hAhead : Ahead s t answers.length)
    (hFails : ∀ answer ∈ answers, ∃ e, answer.error = some e ∧ e.transport = true) :
    ∃ after diskKey error trail,
      final (step (agedProgram key serves)) ⟨(s, g), [(point, t)]⟩ (answered answers) =
        ⟨(after, g), [(.readingDisk diskKey error, trail)]⟩ ∧ trail.exhausted = true := by
  induction answers generalizing s t attempt point with
  | nil => exact absurd rfl hSome
  | cons answer answers ih =>
      obtain ⟨⟨e, hError, hTransport⟩, hOthers⟩ := List.forall_mem_cons.mp hFails
      rw [List.length_cons] at hLeft hAhead
      have hHere : s.rpcUrl < s.active.candidates := hTotal ▸ hUrl
      have hRest := hAhead.failed_or hHere
      show ∃ after diskKey error trail, final (step (agedProgram key serves))
        ⟨((agedProgram key serves).resume (s, g) (point, t) answer).shared,
          [((agedProgram key serves).resume (s, g) (point, t) answer).point]⟩
        (answered answers) = _ ∧ _
      cases answers with
      | nil =>
          obtain ⟨diskKey, error, hResume⟩ := fails_giveUp key serves hTries hError
            (by rw [List.length_nil] at hLeft; omega) s g t
          rw [hResume]
          refine ⟨s, diskKey, error, t.giveUp s, rfl, List.all_eq_true.mpr ?_⟩
          intro url hMem
          apply decide_eq_true
          rcases hRest url (List.mem_range.mp hMem) with hFailed | ⟨k, hk, -⟩
          · exact hFailed
          · exact absurd hk (Nat.not_lt_zero k)
      | cons next answers =>
          obtain ⟨after, hAfter, hResume⟩ := fails_retry key serves hTries hError hTransport
            (by rw [List.length_cons] at hLeft; omega) s g t
          rw [hResume]
          refine ih hAfter hTotal ?_ (by omega) (List.cons_ne_nil _ _) ⟨rfl, hRest⟩ hOthers
          show Failover.rotateRpcUrl s.active.candidates s.rpcUrl < total
          rw [hTotal]
          exact Failover.rotateRpcUrl_lt (by omega) s.rpcUrl

/-- As long as the memory cache is filled with what is fresh, every fetch
returns only what was read after the last invalidation before its start, unless
every candidate fails it. The first step that is not safe can be followed by a
fetch that returns older data. -/
theorem invalidation_forces_fresh_read (key : StrKey Address) (serves : Nat → Nat)
    (active : Deployment) (disk : String → Option PersistedEvents)
    (as : List (Action Int (Answer Address) Change))
    (hSafe : Along (step (agedProgram key serves)) (FillsFresh key serves)
      (agedInitial active disk) as) :
    (erase (final (step (agedProgram key serves)) (agedInitial active disk) as) =
      final (step (program key)) ⟨initial active disk, []⟩ as) ∧
    (∀ call ∈ (final (step (agedProgram key serves)) (agedInitial active disk) as).calls,
      Fresh call) ∧
    ∀ a, ¬ FillsFresh key serves
        (final (step (agedProgram key serves)) (agedInitial active disk) as) a →
      ∃ more, ¬ ∀ call ∈ (final (step (agedProgram key serves)) (agedInitial active disk)
        (as ++ a :: more)).calls, Fresh call := by
  have hInitial : CacheAged (agedInitial active disk).shared := ⟨fun h => absurd rfl h, rfl⟩
  obtain ⟨hCache, hCalls⟩ := ages_outline.along hInitial as hSafe
  refine ⟨erase_final (ages serves) (agedInitial active disk) as,
    fun call hCall => (hCalls call hCall).fresh, ?_⟩
  · intro a hUnsafe
    obtain ⟨more, hMore⟩ := stale_of_unsafe hCache hUnsafe
    refine ⟨more, ?_⟩
    rw [final_append]
    exact hMore

end Fetch

section Sample

attribute [local instance] Arithmetic.double

/-- The answer to `getLatestLedger` and a page with one event. -/
def eventPage (cursor : Option String) : Answer Nat where
  now := 0
  error := none
  sequence := 100
  events := [lateWithdraw]
  cursor := cursor

/-- A vault that was withdrawn. -/
def withdrawn : Owned := ⟨"CONTRACT", ⟨"0", "7", .withdraw, 0, "", 0⟩⟩

/-- The caches are dropped between the two pages of a fetch. -/
def droppedMeanwhile : List (Action Int (Answer Nat) Change) :=
  [.start 0, .resume 0 (eventPage none), .resume 0 (eventPage (some "1")),
    .event .invalidateAllCaches, .resume 0 (eventPage none)]

def twoPages : EventsRequest := ⟨"CONTRACT", some "1", none, eventPageLimit⟩

/-- What is recorded of a fetch that started and read at these moments, with no
failed attempt. -/
def smoothTrail (started oldest : Nat) : Trail :=
  ⟨started, started, oldest, (⟨"CONTRACT", none⟩, 0), [], false⟩

/-- How a fetch with one candidate reads the sample page, with the cursor it
came with. -/
theorem readPage_eventPage (s : Shared) (request : EventsRequest) (loop : PageLoop)
    (cursor : Option String) :
    readPage numbered s 1 request loop (eventPage cursor) =
      let events := loop.events ++ [⟨request.contractId, withdrawn.event⟩]
      let next := cursor.filter (· ≠ "")
      if next = none ∨ next = loop.cursor then complete s 0 { loop with events := events }
      else
        let loop' : PageLoop := { loop with events := events, cursor := next, page := loop.page + 1 }
        if loop'.page < maxPages ∧ events.length < maxEvents then requestPage s 1 0 loop'
        else complete s 0 loop' := by
  have hParsed : parseEvents numbered (eventPage cursor).events = .ok [withdrawn.event] :=
    parse_lateWithdraw
  unfold readPage
  rw [hParsed]
  rfl

/-- The first page is read before anything is dropped. -/
theorem resume_firstPage (serves : Nat → Nat) :
    (agedProgram numbered serves).resume (fresh, ⟨0, 0, false, fun _ => 0, [], 0⟩)
      (.page 1 0 ⟨"CONTRACT", none, some (max 1 (100 - eventLedgersWindow)), eventPageLimit⟩
        ⟨100, [], none, 0⟩, smoothTrail 0 0) (eventPage (some "1")) =
      ⟨(fresh, ⟨0, 0, false, fun _ => 0, [], 1⟩),
        (.page 1 0 twoPages ⟨100, [withdrawn], some "1", 1⟩, smoothTrail 0 0), ()⟩ := by
  have hOldest (g : Ages) (hNow : g.now = 0) :
      oldestWith serves g (smoothTrail 0 0) ⟨100, [], none, 0⟩ = 0 := by
    rw [oldestWith, if_pos rfl, readMoment, hNow, Nat.min_zero]
    rfl
  rw [aged_resume, resume_page_answered rfl, readPage_eventPage]
  show Turn.mk (fresh, _) (_, smoothTrail 0 (oldestWith serves _ _ _)) () = _
  rw [hOldest _ rfl]
  rfl

/-- Whenever the second one is read, the fetch caches both. -/
theorem resume_secondPage (serves : Nat → Nat) (s : Shared) (g : Ages) :
    (agedProgram numbered serves).resume (s, g)
      (.page 1 0 twoPages ⟨100, [withdrawn], some "1", 1⟩, smoothTrail 0 0) (eventPage none) =
      ⟨((complete s 0 ⟨100, [withdrawn, withdrawn], some "1", 1⟩).shared,
          ⟨g.now, 0, false, g.disk, g.pending ++ [0], g.served + 1⟩),
        (.finished (.ok [withdrawn, withdrawn]), smoothTrail 0 0), ()⟩ := by
  have hOldest : oldestWith serves g (smoothTrail 0 0) ⟨100, [withdrawn], some "1", 1⟩ = 0 :=
    Nat.zero_min (readMoment serves g (smoothTrail 0 0))
  rw [aged_resume, resume_page_answered rfl, readPage_eventPage]
  show Turn.mk (_, Ages.mk g.now (oldestWith serves _ _ _) false g.disk
    (g.pending ++ [oldestWith serves _ _ _]) _) (_, smoothTrail 0 (oldestWith serves _ _ _)) () = _
  rw [hOldest]
  rfl

/-- After the sample run, in which the caches are dropped while a fetch is under
way, the next fetch returns both withdrawals, although the first was read
before. -/
theorem final_droppedMeanwhile (serves : Nat → Nat) :
    (final (step (agedProgram numbered serves)) (agedInitial ⟨"CONTRACT", none⟩ fun _ => none)
      (droppedMeanwhile ++ [.start 0])).calls[1]? =
        some (.finished (.ok [withdrawn, withdrawn]), smoothTrail 1 0) := by
  show (final (step (agedProgram numbered serves))
    ⟨(fresh, ⟨0, 0, false, fun _ => 0, [], 0⟩), [(.page 1 0
      ⟨"CONTRACT", none, some (max 1 (100 - eventLedgersWindow)), eventPageLimit⟩
      ⟨100, [], none, 0⟩, smoothTrail 0 0)]⟩
    [.resume 0 (eventPage (some "1")), .event .invalidateAllCaches, .resume 0 (eventPage none),
      .start 0]).calls[1]? = _
  rw [final, step_resume_some rfl, resume_firstPage, final, final, step_resume_some rfl]
  show (final (step (agedProgram numbered serves))
    ⟨((agedProgram numbered serves).resume (_, _) (.page 1 0 twoPages
      ⟨100, [withdrawn], some "1", 1⟩, smoothTrail 0 0) (eventPage none)).shared,
      [((agedProgram numbered serves).resume (_, _) (.page 1 0 twoPages
      ⟨100, [withdrawn], some "1", 1⟩, smoothTrail 0 0) (eventPage none)).point]⟩
    [.start 0]).calls[1]? = _
  rw [resume_secondPage]
  rfl

/-- A deployment with one fallback, whose entry on the disk is older than the
invalidation. -/
def pair : Deployment := ⟨"CONTRACT", some ["fallback"]⟩

def olderDisk : String → Option PersistedEvents :=
  fun _ => some ⟨"CONTRACT", 0, 100, 1, [withdrawn]⟩

def unreachable : Answer Nat := { eventPage none with error := some ⟨"Network Error", true⟩ }

/-- The primary fails; another loop has moved the URL meanwhile, so that the
fetch asks it again and never comes to the fallback. -/
def skippedFallback : List (Action Int (Answer Nat) Change) :=
  [.event .invalidateAllCaches, .start 0, .event (.moveRpcUrl 1), .resume 0 unreachable,
    .resume 0 unreachable, .resume 0 (eventPage none), .resume 0 (eventPage none),
    .resume 0 (eventPage none)]

/-- The URL that was moved on is moved back. -/
theorem rotateRpcUrl_pair (cache : Option EventCache) (pending : List DiskOperation) :
    Shared.rotateRpcUrl ⟨pair, 1, cache, olderDisk, pending⟩ = ⟨pair, 0, cache, olderDisk, pending⟩ := by
  have hBack : Failover.rotateRpcUrl pair.candidates 1 = 0 := by decide
  show (⟨pair, Failover.rotateRpcUrl pair.candidates 1, cache, olderDisk, pending⟩ : Shared) = _
  rw [hBack]

theorem final_skippedFallback (serves : Nat → Nat) :
    (final (step (agedProgram numbered serves)) (agedInitial pair olderDisk) skippedFallback).calls =
      [(.finished (.ok [withdrawn]), ⟨1, 1, 0, (pair, 0), [(pair, 0), (pair, 0)], false⟩)] := by
  have hRetry (s : Shared) (g : Ages) (t : Trail) :
      (agedProgram numbered serves).resume (s, g) (.latest 2 0, t) unreachable =
        ⟨(s.rotateRpcUrl, g), (.latest 2 1, t.retry s.rotateRpcUrl g), ()⟩ := rfl
  show (final (step (agedProgram numbered serves))
    ⟨(⟨pair, 1, none, olderDisk, [.removeItem (eventDiskKey "CONTRACT")]⟩,
      ⟨1, 0, false, fun _ => 0, [0], 0⟩), [(.latest 2 0, ⟨1, 1, 1, (pair, 0), [], false⟩)]⟩
    (skippedFallback.drop 3)).calls = _
  rw [skippedFallback, List.drop_succ_cons, List.drop_succ_cons, List.drop_succ_cons, List.drop_zero,
    final, step_resume_some rfl, hRetry, rotateRpcUrl_pair]
  rfl

/-- A fetch returns the page that was read before the invalidation that it
started after; another returns the entry of the disk, though it has asked one
candidate of two. -/
theorem invalidation_outlived :
    (∀ serves, (final (step (agedProgram numbered serves))
      (agedInitial ⟨"CONTRACT", none⟩ fun _ => none) (droppedMeanwhile ++ [.start 0])).calls[1]? =
        some (.finished (.ok [withdrawn, withdrawn]), smoothTrail 1 0)) ∧
    (∀ serves, ¬ ∀ call ∈ (final (step (agedProgram numbered serves))
      (agedInitial ⟨"CONTRACT", none⟩ fun _ => none) (droppedMeanwhile ++ [.start 0])).calls,
      Fresh call) ∧
    ∀ serves, (final (step (agedProgram numbered serves)) (agedInitial pair olderDisk)
        skippedFallback).calls = [(.finished (.ok [withdrawn]),
          ⟨1, 1, 0, (pair, 0), [(pair, 0), (pair, 0)], false⟩)] ∧
      ¬ ∀ call ∈ (final (step (agedProgram numbered serves)) (agedInitial pair olderDisk)
        skippedFallback).calls, Fresh call := by
  refine ⟨final_droppedMeanwhile, ?_, fun serves => ⟨final_skippedFallback serves, ?_⟩⟩
  · intro serves hFresh
    rcases hFresh _ (List.mem_of_getElem? (final_droppedMeanwhile serves)) _ rfl with
      hOld | hExhausted
    · exact absurd hOld (by decide)
    · cases hExhausted
  · rw [final_skippedFallback]
    intro hFresh
    rcases hFresh _ (List.mem_singleton.mpr rfl) _ rfl with hOld | hExhausted
    · exact absurd hOld (by decide)
    · cases hExhausted

/-- A fetch that starts after the caches were dropped. -/
def droppedBefore : List (Action Int (Answer Nat) Change) :=
  [.event .invalidateAllCaches, .start 0, .resume 0 (eventPage none), .resume 0 (eventPage none)]

theorem invalidation_forces_fresh_read_sample :
    erase (final (step (agedProgram numbered fun _ => 0))
      (agedInitial ⟨"CONTRACT", none⟩ fun _ => none) droppedBefore) =
        final (step (program numbered)) ⟨initial ⟨"CONTRACT", none⟩ fun _ => none, []⟩
          droppedBefore ∧
    ∀ call ∈ (final (step (agedProgram numbered fun _ => 0))
      (agedInitial ⟨"CONTRACT", none⟩ fun _ => none) droppedBefore).calls, Fresh call := by
  have hSafe : Along (step (agedProgram numbered fun _ => 0)) (FillsFresh numbered fun _ => 0)
      (agedInitial ⟨"CONTRACT", none⟩ fun _ => none) droppedBefore := by
    refine ⟨trivial, ?_, ?_, ?_, trivial⟩
    · intro cache hCache
      cases hCache
    · intro point trail hCall
      cases hCall
      exact ⟨fun _ _ _ _ h => (by cases h), fun _ _ h => (by cases h)⟩
    · intro point trail hCall
      cases hCall
      refine ⟨?_, fun _ _ h => (by cases h)⟩
      intro total attempt request loop hPoint _
      cases hPoint
      exact le_max_left _ _
  obtain ⟨hErased, hFresh, -⟩ := invalidation_forces_fresh_read numbered (fun _ => 0)
    ⟨"CONTRACT", none⟩ (fun _ => none) droppedBefore hSafe
  exact ⟨hErased, hFresh⟩

end Sample

end EventFetch
