import StellarTimelock.Client.FetchCompletion

/-! What a fetch has of the stream when it resolves: all of it, or as much as
its caps on pages and events let through. -/
namespace EventFetch

open SorobanClient Execution Interleaving FloatingPoint

variable {Address : Type} {key : StrKey Address}

/-! An RPC that pages through a stream. `pos` is the position in the stream
that a cursor stands for. -/

def position (pos : String → Nat) : Option String → Nat
  | none => 0
  | some cursor => pos cursor

/-- The page that follows a cursor: the next events, none left out, and a
cursor for the position after them. Only the end has no cursor, or the same. -/
structure HonestPage (stream : List (EventResponse Address)) (pos : String → Nat)
    (cursor : Option String) (page : Answer Address) : Prop where
  limit : page.events.length ≤ eventPageLimit
  events : page.events = (stream.drop (position pos cursor)).take page.events.length
  next : ∀ next, page.cursor.filter (· ≠ "") = some next →
    pos next = position pos cursor + page.events.length
  last : page.cursor.filter (· ≠ "") = none ∨ page.cursor.filter (· ≠ "") = cursor →
    position pos cursor + page.events.length = stream.length

/-- Attempts may fail in any way; a page that is answered is honest. -/
def Pages (stream : List (EventResponse Address)) (pos : String → Nat) (s : System Shared Point) :
    Action Int (Answer Address) Change → Prop
  | .resume number answer => ∀ total attempt request loop,
      s.calls[number]? = some (.page total attempt request loop) → answer.error = none →
      HonestPage stream pos request.cursor answer
  | _ => True

/-- Nothing has changed but the URL of the RPC, which failed attempts move. -/
def Rotated (s after : Shared) : Prop := ∃ url, after = { s with rpcUrl := url }

def FromMemory (s : Shared) (now : Int) (after : Shared) (events : List Owned) : Prop :=
  (∃ cache, s.eventCache = some cache ∧ now - cache.time < eventCacheMs ∧ cache.data = events) ∧
    after = s

def FromDisk (s after : Shared) (events : List Owned) : Prop :=
  (∃ payload, s.disk (eventDiskKey s.active.contractId) = some payload ∧
    payload.contractId = s.active.contractId ∧ payload.events = events) ∧
  ∃ time, Rotated { s with eventCache := some ⟨time, events⟩ } after

/-- The parsed events of the first `count` events of the stream, which the
pages make up. -/
structure Prefix [Arithmetic] (key : StrKey Address) (stream : List (EventResponse Address)) (contract : String)
    (answers pages : List (Answer Address)) (count : Nat) (events : List Owned) : Prop where
  answered : pages.Sublist answers ∧ ∀ page ∈ pages, page.error = none
  within : count ≤ stream.length
  pages : pages.flatMap (·.events) = stream.take count
  parsed : ∃ parsed, parseEvents key (stream.take count) = .ok parsed ∧
    events = parsed.map (Owned.mk contract)

/-- The whole stream, unless a cap is reached. What is returned is also what is
cached, and what is to be written to the disk. -/
def FromStream [Arithmetic] (key : StrKey Address) (stream : List (EventResponse Address)) (s : Shared)
    (answers : List (Answer Address)) (after : Shared) (events : List Owned) : Prop :=
  (∃ pages count, Prefix key stream s.active.contractId answers pages count events ∧
    (count = stream.length ∨ maxEvents ≤ events.length ∨ pages.length = maxPages)) ∧
  ∃ time payload, payload.contractId = s.active.contractId ∧ payload.events = events ∧
    Rotated { s with
      eventCache := some ⟨time, events⟩
      pending := s.pending ++ [.setItem (eventDiskKey s.active.contractId) payload] } after

/-- What holds of a fetch that started at `now` from `s`, after these answers. -/
def Position [Arithmetic] (key : StrKey Address) (stream : List (EventResponse Address)) (pos : String → Nat)
    (s : Shared) (now : Int) (answers : List (Answer Address)) (after : Shared) : Point → Prop
  | .latest _ _ => Rotated s after
  | .page _ _ request loop => Rotated s after ∧ request.contractId = s.active.contractId ∧
      request.cursor = loop.cursor ∧ loop.page < maxPages ∧
      ∃ pages, pages.length = loop.page ∧
        Prefix key stream s.active.contractId answers pages (position pos loop.cursor) loop.events
  | .readingDisk diskKey _ => Rotated s after ∧ diskKey = eventDiskKey s.active.contractId
  | .diskItem parsed _ => Rotated s after ∧
      ∀ payload, parsed = some payload → s.disk (eventDiskKey s.active.contractId) = some payload
  | .diskRead disk _ => Rotated s after ∧ ∀ payload, disk = some payload →
      s.disk (eventDiskKey s.active.contractId) = some payload ∧
        payload.contractId = s.active.contractId
  | .finished (.ok events) => FromMemory s now after events ∨ FromDisk s after events ∨
      FromStream key stream s answers after events
  | .finished (.error _) => Rotated s after

section Alone

variable [Arithmetic]

/-- The pages read so far stay a prefix of the stream after a further answer
that brings none, as that of a candidate that failed. -/
theorem Prefix.more {stream : List (EventResponse Address)} {contract : String}
    {answers pages : List (Answer Address)} {count : Nat} {events : List Owned}
    (h : Prefix key stream contract answers pages count events) (answer : Answer Address) :
    Prefix key stream contract (answers ++ [answer]) pages count events :=
  ⟨⟨h.answered.1.trans (List.sublist_append_left _ _), h.answered.2⟩, h.within, h.pages, h.parsed⟩

/-- An honest page that comes next at the cursor takes the prefix on: the events
read so far, followed by those of the page, are again what the stream begins
with. -/
theorem Prefix.page {stream : List (EventResponse Address)} {pos : String → Nat}
    {contract : String} {answers pages : List (Answer Address)} {cursor : Option String}
    {events : List Owned} (h : Prefix key stream contract answers pages (position pos cursor) events)
    {answer : Answer Address} (hPage : HonestPage stream pos cursor answer)
    (hNoError : answer.error = none) {parsed : List ParsedEvent}
    (hParsed : parseEvents key answer.events = .ok parsed) :
    Prefix key stream contract (answers ++ [answer]) (pages ++ [answer])
      (position pos cursor + answer.events.length) (events ++ parsed.map (Owned.mk contract)) := by
  have hTake : stream.take (position pos cursor + answer.events.length) =
      stream.take (position pos cursor) ++ answer.events := by
    rw [List.take_add, ← hPage.events]
  have hLength : answer.events.length ≤ stream.length - position pos cursor := by
    have hCut := congrArg List.length hPage.events
    rw [List.length_take, List.length_drop] at hCut
    omega
  refine ⟨⟨h.answered.1.append (List.Sublist.refl _), ?_⟩, ?_, ?_, ?_⟩
  · intro page hMem
    rcases List.mem_append.mp hMem with hOld | hNew
    · exact h.answered.2 page hOld
    · rw [List.mem_singleton.mp hNew]
      exact hNoError
  · have hWithin := h.within
    omega
  · rw [List.flatMap_append, h.pages, hTake, List.flatMap_singleton]
  · obtain ⟨before, hBefore, rfl⟩ := h.parsed
    refine ⟨before ++ parsed, ?_, List.map_append.symm⟩
    rw [hTake]
    exact parseEvents_append_ok.mpr ⟨before, parsed, hBefore, hParsed, rfl⟩

variable {stream : List (EventResponse Address)} {pos : String → Nat} {s : Shared} {now : Int}
  {answers : List (Answer Address)}

/-- A fetch that stops reading because the stream is at its end, or one of its
two limits is reached, finishes with what the pages held, puts it in the memory
cache and has it written to the disk. -/
theorem complete_position (url : Nat) (answer : Answer Address) {loop : PageLoop}
    {pages : List (Answer Address)} {count : Nat}
    (h : Prefix key stream s.active.contractId answers pages count loop.events)
    (hEnough : count = stream.length ∨ maxEvents ≤ loop.events.length ∨ pages.length = maxPages) :
    Position key stream pos s now answers (complete { s with rpcUrl := url } answer.now loop).shared
      (complete { s with rpcUrl := url } answer.now loop).point :=
  Or.inr (Or.inr ⟨⟨pages, count, h, hEnough⟩, answer.now,
    ⟨s.active.contractId, answer.now, loop.latestLedger, loop.startLedger, loop.events⟩, rfl, rfl,
      url, rfl⟩)

/-- One round of the page loop takes the prefix on by one page. -/
theorem readPage_position (url : Nat) {total : Nat} {request : EventsRequest} {loop : PageLoop}
    {answer : Answer Address} {pages : List (Answer Address)}
    (hContract : request.contractId = s.active.contractId) (hCursor : request.cursor = loop.cursor)
    (hPage : loop.page < maxPages) (hPages : pages.length = loop.page)
    (h : Prefix key stream s.active.contractId answers pages (position pos loop.cursor) loop.events)
    (hNoError : answer.error = none) (hHonest : HonestPage stream pos request.cursor answer) :
    Position key stream pos s now (answers ++ [answer])
      (readPage key { s with rpcUrl := url } total request loop answer).shared
      (readPage key { s with rpcUrl := url } total request loop answer).point := by
  rw [hCursor] at hHonest
  unfold readPage
  split
  · exact ⟨url, rfl⟩
  · next parsed hParsed =>
      have hMore := h.page hHonest hNoError hParsed
      have hCount : (pages ++ [answer]).length = loop.page + 1 := by
        rw [List.length_append, hPages]
        rfl
      rw [hContract]
      simp only
      split
      · next hLast => exact complete_position url answer hMore (Or.inl (hHonest.last hLast))
      · next hGoes =>
          split
          · next hRoom =>
              obtain ⟨hNone, hOther⟩ := not_or.mp hGoes
              obtain ⟨next, hNext⟩ := Option.ne_none_iff_exists'.mp hNone
              refine ⟨⟨url, rfl⟩, rfl, rfl, hRoom.1, pages ++ [answer], hCount, ?_⟩
              show Prefix key stream _ _ _ (position pos (answer.cursor.filter (· ≠ ""))) _
              rw [hNext]
              show Prefix key stream _ _ _ (pos next) _
              rw [hHonest.next next hNext]
              exact hMore
          · next hFull =>
              refine complete_position url answer hMore (Or.inr ?_)
              rw [hCount]
              simp only at hFull ⊢
              omega

/-- One answer to a fetch that is alone takes it from one position to the next.
An answer with a page has to be honest, an error may come at any time. -/
theorem resume_position {after : Shared} {point : Point} {answer : Answer Address}
    (h : Position key stream pos s now answers after point)
    (hHonest : ∀ total attempt request loop, point = .page total attempt request loop →
      answer.error = none → HonestPage stream pos request.cursor answer) :
    Position key stream pos s now (answers ++ [answer]) (resume key after point answer).shared
      (resume key after point answer).point := by
  cases point with
  | latest total attempt =>
      obtain ⟨url, rfl⟩ := h
      simp only [resume]
      split
      · refine ⟨⟨url, rfl⟩, rfl, rfl, Nat.zero_lt_succ 19, [], rfl, ?_⟩
        exact ⟨⟨List.nil_sublist _, fun page hMem => absurd hMem List.not_mem_nil⟩, Nat.zero_le _,
          rfl, [], rfl, rfl⟩
      · split
        · exact ⟨⟨url, rfl⟩, rfl⟩
        · exact ⟨_, rfl⟩
  | page total attempt request loop =>
      obtain ⟨⟨url, rfl⟩, hContract, hCursor, hPage, pages, hPages, hPrefix⟩ := h
      simp only [resume]
      split
      · next hNoError =>
          exact readPage_position url hContract hCursor hPage hPages hPrefix hNoError
            (hHonest total attempt request loop rfl hNoError)
      · split
        · exact ⟨⟨url, rfl⟩, rfl⟩
        · exact ⟨⟨_, rfl⟩, rfl, rfl, hPage, pages, hPages, hPrefix.more answer⟩
  | readingDisk diskKey error =>
      obtain ⟨⟨url, rfl⟩, rfl⟩ := h
      show Position _ _ _ _ _ _ _ (if answer.error = none then _ else _)
      split
      · exact ⟨⟨url, rfl⟩, fun payload hDisk => hDisk⟩
      · exact ⟨⟨url, rfl⟩, fun payload hDisk => (by cases hDisk)⟩
  | diskItem parsed error =>
      obtain ⟨⟨url, rfl⟩, hDisk⟩ := h
      refine ⟨⟨url, rfl⟩, ?_⟩
      intro payload hPayload
      obtain ⟨hParsed, hAccepted⟩ := Option.filter_eq_some_iff.mp hPayload
      exact ⟨hDisk payload hParsed, (of_decide_eq_true hAccepted).1⟩
  | diskRead disk error =>
      obtain ⟨⟨url, rfl⟩, hDisk⟩ := h
      cases disk with
      | none => exact ⟨url, rfl⟩
      | some payload =>
          obtain ⟨hHeld, hContract⟩ := hDisk payload rfl
          exact Or.inr (Or.inl ⟨⟨payload, hHeld, hContract, rfl⟩, answer.now, url, rfl⟩)
  | finished result =>
      cases result with
      | error failure => exact h
      | ok events =>
          rcases h with hMemory | hDisk | ⟨⟨pages, count, hPrefix, hEnough⟩, hAfter⟩
          · exact Or.inl hMemory
          · exact Or.inr (Or.inl hDisk)
          · exact Or.inr (Or.inr ⟨⟨pages, count, hPrefix.more answer, hEnough⟩, hAfter⟩)

/-- The first stretch of a fetch already stands where it should: it has returned
what is in memory, or it waits for the latest ledger and has read nothing yet.
-/
theorem start_position (key : StrKey Address) (stream : List (EventResponse Address))
    (pos : String → Nat) (s : Shared) (now : Int) :
    Position key stream pos s now [] (fetchContractEvents s now).shared
      (fetchContractEvents s now).point := by
  unfold fetchContractEvents
  split
  · next cache hCache =>
      obtain ⟨hSome, hFresh⟩ := Option.filter_eq_some_iff.mp hCache
      exact Or.inl ⟨⟨cache, hSome, of_decide_eq_true hFresh, rfl⟩, rfl⟩
  · exact ⟨s.rpcUrl, rfl⟩

/-- After any sequence of answers a fetch that is alone stands where a position
says, by induction on the answers and with the previous lemma for each of them.
-/
theorem answered_position {later : List (Answer Address)} {after : Shared} {point : Point}
    (h : Position key stream pos s now answers after point)
    (hAlong : Along (Interleaving.step (program key)) (Pages stream pos) ⟨after, [point]⟩
      (answered later)) :
    ∃ last stopped, final (Interleaving.step (program key)) ⟨after, [point]⟩ (answered later) =
        ⟨last, [stopped]⟩ ∧
      Position key stream pos s now (answers ++ later) last stopped := by
  induction later generalizing answers after point with
  | nil =>
      rw [List.append_nil]
      exact ⟨after, point, rfl, h⟩
  | cons answer later ih =>
      obtain ⟨hHonest, hLater⟩ := hAlong
      have hStep := resume_position h fun total attempt request loop hPoint =>
        hHonest total attempt request loop (congrArg some hPoint)
      obtain ⟨last, stopped, hFinal, hHolds⟩ := ih hStep hLater
      rw [List.append_assoc] at hHolds
      exact ⟨last, stopped, hFinal, hHolds⟩

/-- Against an RPC that leaves nothing out, whatever attempts fail, a fetch that
resolves has returned the young memory cache, the disk cache, or a prefix of
the stream, in order and without gaps: all of it, unless it has read as many
pages or events as it allows itself. It caches and persists what it returns; a
fetch that has not resolved changes nothing but the URL of the RPC. -/
theorem fetch_returns_prefix (key : StrKey Address) (stream : List (EventResponse Address))
    (pos : String → Nat) (s : Shared) (now : Int) (answers : List (Answer Address))
    (hAlong : Along (Interleaving.step (program key)) (Pages stream pos) ⟨s, []⟩
      (.start now :: answered answers)) :
    ∃ after point, final (Interleaving.step (program key)) ⟨s, []⟩ (.start now :: answered answers) =
        ⟨after, [point]⟩ ∧
      ((∃ events, point = .finished (.ok events) ∧ (FromMemory s now after events ∨
          FromDisk s after events ∨ FromStream key stream s answers after events)) ∨
        (∀ events, point ≠ .finished (.ok events)) ∧ Rotated s after) := by
  obtain ⟨after, point, hFinal, hHolds⟩ :=
    answered_position (start_position key stream pos s now) hAlong.2
  rw [List.nil_append] at hHolds
  refine ⟨after, point, hFinal, ?_⟩
  cases point with
  | finished result =>
      cases result with
      | ok events => exact Or.inl ⟨events, rfl, hHolds⟩
      | error failure => exact Or.inr ⟨fun events h => (by cases h), hHolds⟩
  | latest total attempt => exact Or.inr ⟨fun events h => (by cases h), hHolds⟩
  | page total attempt request loop => exact Or.inr ⟨fun events h => (by cases h), hHolds.1⟩
  | readingDisk diskKey error => exact Or.inr ⟨fun events h => (by cases h), hHolds.1⟩
  | diskItem parsed error => exact Or.inr ⟨fun events h => (by cases h), hHolds.1⟩
  | diskRead disk error => exact Or.inr ⟨fun events h => (by cases h), hHolds.1⟩

end Alone

/-- The page has no events and a cursor that was not given. -/
def Quiet (s : System Shared Point) : Action Int (Answer Address) Change → Prop
  | .resume number answer =>
      match s.calls[number]? with
      | some (.page _ _ request _) => answer.events.length = 0 ∧
          answer.cursor.filter (· ≠ "") ≠ none ∧ answer.cursor.filter (· ≠ "") ≠ request.cursor
      | _ => True
  | _ => True

instance (s : System Shared Point) (a : Action Int (Answer Address) Change) :
    Decidable (Quiet s a) := by
  unfold Quiet
  split
  · split
    · infer_instance
    · infer_instance
  · infer_instance

theorem Quiet.pages {stream : List (EventResponse Address)} {s : System Shared Point} {a : Action Int (Answer Address) Change}
    (h : Quiet s a) : Pages stream (fun _ => 0) s a := by
  cases a with
  | start now => trivial
  | event e => trivial
  | resume number answer =>
      intro total attempt request loop hPoint _
      simp only [Quiet, hPoint] at h
      obtain ⟨hNone, hCursor, hNew⟩ := h
      have hPosition : position (fun _ => 0) request.cursor = 0 := by
        cases request.cursor with
        | none => rfl
        | some cursor => rfl
      refine ⟨?_, ?_, ?_, ?_⟩
      · rw [hNone]
        exact Nat.zero_le _
      · rw [List.length_eq_zero_iff.mp hNone]
        rfl
      · intro next _
        rw [hPosition, hNone]
      · rintro (h | h)
        · exact absurd h hCursor
        · exact absurd h hNew

section Sample

attribute [local instance] Arithmetic.double

def quietPage (n : Nat) : Answer Nat where
  now := 0
  error := none
  sequence := 100
  events := []
  cursor := some (Nat.repr (n + 1))

/-- The answer to `getLatestLedger`, and as many pages as a fetch reads. -/
def quietPages : List (Answer Nat) := (List.range (maxPages + 1)).map quietPage

/-- The one event of the stream comes after them. -/
def lateWithdraw : EventResponse Nat := ⟨⟨[.symbol "withdraw", .address 7], [.u64 0, .i128 0]⟩, 0⟩

/-- The answers of `quietPages` are pages of a stream that holds nothing but the
late withdrawal. -/
theorem quietPages_honest : Along (Interleaving.step (program numbered))
    (Pages [lateWithdraw] fun _ => 0) ⟨fresh, []⟩ (.start 0 :: answered quietPages) :=
  along_mono _ (fun _ _ h => Quiet.pages h) (by decide : Along (Interleaving.step (program numbered))
    Quiet ⟨fresh, []⟩ (.start 0 :: answered quietPages))

/-- The late withdrawal is parsed as one withdraw event of the owner of vault 0.
-/
theorem parse_lateWithdraw :
    parseEvents numbered [lateWithdraw] = .ok [⟨"0", "7", .withdraw, 0, "", 0⟩] := by
  have hAmount : stroopsToXlm (I128.val 0) = 0 := stroopsToXlm_zero
  unfold lateWithdraw
  rw [parseEvents, parse_withdraw, hAmount]
  rfl

/-- The fetch misses it, and caches and persists what it has. -/
theorem capped_fetch_misses_newest :
    Along (Interleaving.step (program numbered)) (Pages [lateWithdraw] fun _ => 0) ⟨fresh, []⟩
      (.start 0 :: answered quietPages) ∧
    (final (Interleaving.step (program numbered)) ⟨fresh, []⟩
      (.start 0 :: answered quietPages)).calls = [.finished (.ok [])] ∧
    (final (Interleaving.step (program numbered)) ⟨fresh, []⟩
      (.start 0 :: answered quietPages)).shared.eventCache = some ⟨0, []⟩ ∧
    (∃ diskKey payload, (final (Interleaving.step (program numbered)) ⟨fresh, []⟩
      (.start 0 :: answered quietPages)).shared.pending = [.setItem diskKey payload] ∧
        payload.events = []) ∧
    parseEvents numbered [lateWithdraw] = .ok [⟨"0", "7", .withdraw, 0, "", 0⟩] ∧
    ∀ diskKey, fresh.disk diskKey = none := by
  refine ⟨quietPages_honest, ?_, ?_, ?_, parse_lateWithdraw, fun _ => rfl⟩
  · rfl
  · rfl
  · exact ⟨eventDiskKey "CONTRACT", ⟨"CONTRACT", 0, 100, max 1 (100 - eventLedgersWindow), []⟩, by rfl, rfl⟩

/-- The stream on a single page. -/
def wholeStream : List (Answer Nat) :=
  [singlePage [lateWithdraw] 0, singlePage [lateWithdraw] 1]

theorem fetch_returns_prefix_sample :
    ∃ after point, final (Interleaving.step (program numbered)) ⟨fresh, []⟩
        (.start 0 :: answered wholeStream) = ⟨after, [point]⟩ ∧
      ((∃ events, point = .finished (.ok events) ∧ (FromMemory fresh 0 after events ∨
          FromDisk fresh after events ∨
          FromStream numbered [lateWithdraw] fresh wholeStream after events)) ∨
        (∀ events, point ≠ .finished (.ok events)) ∧ Rotated fresh after) := by
  refine fetch_returns_prefix numbered [lateWithdraw] (fun _ => 0) fresh 0 wholeStream
    ⟨trivial, ?_, ?_, trivial⟩
  · intro total attempt request loop hPoint _
    cases hPoint
  · intro total attempt request loop hPoint _
    cases hPoint
    refine ⟨by decide, rfl, ?_, fun _ => rfl⟩
    intro next hNext
    cases hNext

end Sample

end EventFetch
