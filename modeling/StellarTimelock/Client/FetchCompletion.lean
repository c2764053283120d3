import StellarTimelock.Client.FetchEvents
import StellarTimelock.Client.StatusSoundness

/-! When the contract-wide fetch resolves. The contract accepts every later
unlock time, the reader only one that is a date, and one event that it cannot
read ends the fetch for everyone. -/
namespace EventFetch

open SorobanClient XlmVault Execution Interleaving FloatingPoint

variable {Address : Type} {contract : Address} {key : StrKey Address}

/-- The events the contract publishes. -/
inductive Published : EventResponse Address → Prop where
  | create (owner : Address) (id u time : UInt64) (amount : I128) :
      Published ⟨⟨[.symbol "create", .address owner], [.u64 id, .i128 amount, .u64 u]⟩, time⟩
  | deposit (owner : Address) (id time : UInt64) (amount : I128) :
      Published ⟨⟨[.symbol "deposit", .address owner], [.u64 id, .i128 amount]⟩, time⟩
  | extend (owner : Address) (id u time : UInt64) :
      Published ⟨⟨[.symbol "extend", .address owner], [.u64 id, .u64 u]⟩, time⟩
  | withdraw (owner : Address) (id time : UInt64) (amount : I128) :
      Published ⟨⟨[.symbol "withdraw", .address owner], [.u64 id, .i128 amount]⟩, time⟩

/-- The unlock time an event carries. -/
def unlockOf (ev : EventResponse Address) : Option UInt64 :=
  match ev.event.topics, ev.event.value with
  | .symbol "create" :: _, [_, _, .u64 u] => some u
  | .symbol "extend" :: _, [_, .u64 u] => some u
  | _, _ => none

/-- An unlock time that the event carries is a date. -/
def Dated (ev : EventResponse Address) : Prop := ∀ u, unlockOf ev = some u → u.toNat ≤ maxUnlock

section Fetch

variable [Arithmetic]

/-- A published event has a row, unless its unlock time is no date. -/
theorem Published.parse (key : StrKey Address) {ev : EventResponse Address} (h : Published ev) :
    (∃ row, Dated ev ∧ parseEvent key ev = .ok (some row)) ∨
      ¬ Dated ev ∧ parseEvent key ev = .error .rangeError := by
  have hAt (u : UInt64) {other : EventResponse Address} (hOther : unlockOf other = some u) :
      Dated other ↔ u.toNat ≤ maxUnlock := by
    unfold Dated
    rw [hOther]
    exact ⟨fun hAll => hAll u rfl, fun hDate v hv => Option.some.inj hv ▸ hDate⟩
  cases h with
  | create owner id u time amount =>
      rw [hAt u rfl, parse_create]
      by_cases hDate : u.toNat ≤ maxUnlock
      · rw [if_pos hDate]
        exact Or.inl ⟨_, hDate, rfl⟩
      · rw [if_neg hDate]
        exact Or.inr ⟨hDate, rfl⟩
  | deposit owner id time amount => exact Or.inl ⟨_, fun u hu => (by cases hu), parse_deposit ..⟩
  | extend owner id u time =>
      rw [hAt u rfl, parse_extend]
      by_cases hDate : u.toNat ≤ maxUnlock
      · rw [if_pos hDate]
        exact Or.inl ⟨_, hDate, rfl⟩
      · rw [if_neg hDate]
        exact Or.inr ⟨hDate, rfl⟩
  | withdraw owner id time amount => exact Or.inl ⟨_, fun u hu => (by cases hu), parse_withdraw ..⟩

/-- An event that the contract has published becomes a row exactly if the unlock
time in it, where it has one, can be written as a date. -/
theorem Published.row_iff {ev : EventResponse Address} (h : Published ev) :
    (∃ row, parseEvent key ev = .ok (some row)) ↔ Dated ev := by
  rcases h.parse key with ⟨row, hDated, hParse⟩ | ⟨hNot, hParse⟩
  · exact iff_of_true ⟨row, hParse⟩ hDated
  · refine iff_of_false ?_ hNot
    rintro ⟨row, hRow⟩
    cases hParse.symm.trans hRow

/-- A page of published events yields as many rows, or no rows at all. -/
theorem parseEvents_published (key : StrKey Address) {evs : List (EventResponse Address)}
    (h : ∀ ev ∈ evs, Published ev) :
    (∃ parsed, (∀ ev ∈ evs, Dated ev) ∧ parseEvents key evs = .ok parsed ∧
        parsed.length = evs.length) ∨
      (¬ ∀ ev ∈ evs, Dated ev) ∧ ∃ e, parseEvents key evs = .error e := by
  induction evs with
  | nil => exact Or.inl ⟨[], fun ev hev => absurd hev List.not_mem_nil, rfl, rfl⟩
  | cons ev evs ih =>
      rw [List.forall_mem_cons] at h
      rw [List.forall_mem_cons, parseEvents]
      rcases h.1.parse key with ⟨row, hDated, hRow⟩ | ⟨hNot, hRow⟩
      · rw [hRow]
        rcases ih h.2 with ⟨later, hLater, hRows, hLength⟩ | ⟨hLater, e, hThrown⟩
        · refine Or.inl ⟨row :: later, ⟨hDated, hLater⟩, ?_, congrArg (· + 1) hLength⟩
          rw [hRows]
          rfl
        · refine Or.inr ⟨fun hAll => hLater hAll.2, e, ?_⟩
          rw [hThrown]
          rfl
      · rw [hRow]
        exact Or.inr ⟨fun hAll => hNot hAll.1, _, rfl⟩

/-- The events of the pages that a fetch reads: up to the page that has no new
cursor, brings the total to the limit or is the last of the list. -/
def readEvents : List (Answer Address) → Option String → Nat → List (EventResponse Address)
  | [], _, _ => []
  | page :: pages, cursor, count =>
      let next := page.cursor.filter (· ≠ "")
      let total := count + page.events.length
      page.events ++
        if next = none ∨ next = cursor ∨ maxEvents ≤ total then [] else readEvents pages next total

/-- The call is alone and goes on with the answers in turn. -/
def answered (pages : List (Answer Address)) : List (Action Int (Answer Address) Change) :=
  pages.map (Action.resume 0)

/-- The next answer resumes the fetch, and the others are for what it then waits
for. -/
theorem final_answered (s : Shared) (point : Point) (page : Answer Address)
    (pages : List (Answer Address)) :
    final (Interleaving.step (program key)) ⟨s, [point]⟩ (answered (page :: pages)) =
      final (Interleaving.step (program key))
        ⟨(resume key s point page).shared, [(resume key s point page).point]⟩ (answered pages) := rfl

theorem final_finished (s : Shared) (result : Except Failure (List Owned))
    (pages : List (Answer Address)) :
    final (Interleaving.step (program key)) ⟨s, [.finished result]⟩ (answered pages) =
      ⟨s, [.finished result]⟩ := by
  induction pages with
  | nil => rfl
  | cons page pages ih => exact ih

/-- A fetch that is alone has resolved in the end. -/
def Resolved (s : System Shared Point) : Prop := ∃ events, s.calls = [.finished (.ok events)]

/-- A fetch that has read its last page resolves with what it has read. -/
theorem resolved_complete (s : Shared) (now : Int) (loop : PageLoop)
    (pages : List (Answer Address)) : Resolved (final (Interleaving.step (program key))
      ⟨(complete s now loop).shared, [(complete s now loop).point]⟩ (answered pages)) := by
  refine ⟨loop.events, ?_⟩
  unfold complete
  rw [final_finished]

/-- The page loop resolves exactly if all events it reads carry dates. -/
theorem pageLoop_resolves_iff (pages : List (Answer Address)) (s : Shared) (total : Nat)
    (request : EventsRequest) (loop : PageLoop) (hSome : pages ≠ [])
    (hPages : loop.page + pages.length = maxPages)
    (hAnswered : ∀ page ∈ pages, page.error = none ∧ ∀ ev ∈ page.events, Published ev) :
    Resolved (final (Interleaving.step (program key)) ⟨s, [.page total 0 request loop]⟩
        (answered pages)) ↔
      ∀ ev ∈ readEvents pages loop.cursor loop.events.length, Dated ev := by
  induction pages generalizing s request loop with
  | nil => exact absurd rfl hSome
  | cons page pages ih =>
      rw [List.forall_mem_cons] at hAnswered
      obtain ⟨⟨hNoError, hPublished⟩, hLater⟩ := hAnswered
      have hStep : resume key s (.page total 0 request loop) page =
          readPage key s total request loop page := by
        simp only [resume, hNoError]
      rw [final_answered, hStep, readEvents, List.forall_mem_append, readPage]
      rcases parseEvents_published key hPublished with
        ⟨parsed, hDated, hParse, hLength⟩ | ⟨hNot, e, hThrown⟩
      · rw [hParse]
        simp only
        have hCount : (loop.events ++ parsed.map (Owned.mk request.contractId)).length =
            loop.events.length + page.events.length := by
          rw [List.length_append, List.length_map, hLength]
        rw [hCount]
        by_cases hLast : page.cursor.filter (· ≠ "") = none ∨
            page.cursor.filter (· ≠ "") = loop.cursor
        · rw [if_pos hLast, if_pos (hLast.imp_right Or.inl)]
          exact iff_of_true (resolved_complete s _ _ pages) ⟨hDated, fun ev h => (by cases h)⟩
        · rw [if_neg hLast]
          rw [not_or] at hLast
          by_cases hFull : maxEvents ≤ loop.events.length + page.events.length
          · have hStop : ¬ (loop.page + 1 < maxPages ∧
                loop.events.length + page.events.length < maxEvents) :=
              fun h => Nat.not_lt.mpr hFull h.2
            rw [if_neg hStop, if_pos (Or.inr (Or.inr hFull))]
            exact iff_of_true (resolved_complete s _ _ pages) ⟨hDated, fun ev h => (by cases h)⟩
          · have hGoes : ¬ (page.cursor.filter (· ≠ "") = none ∨
                page.cursor.filter (· ≠ "") = loop.cursor ∨
                maxEvents ≤ loop.events.length + page.events.length) :=
              not_or.mpr ⟨hLast.1, not_or.mpr ⟨hLast.2, hFull⟩⟩
            rw [if_neg hGoes, and_iff_right hDated]
            by_cases hMore : loop.page + 1 < maxPages
            · rw [if_pos ⟨hMore, Nat.not_le.mp hFull⟩, ← hCount]
              rw [List.length_cons] at hPages
              refine ih s _ _ ?_ ?_ hLater
              · rintro rfl
                rw [List.length_nil] at hPages
                omega
              · show loop.page + 1 + pages.length = maxPages
                omega
            · rw [if_neg (fun h => hMore h.1)]
              have hEnd : pages = [] := by
                rw [List.length_cons] at hPages
                exact List.length_eq_zero_iff.mp (by omega)
              rw [hEnd]
              exact iff_of_true (resolved_complete s _ _ []) (fun ev h => (by cases h))
      · rw [hThrown]
        refine iff_of_false ?_ (fun h => hNot h.1)
        rintro ⟨events, hEvents⟩
        simp only at hEvents
        rw [final_finished] at hEvents
        cases hEvents

omit [Arithmetic] in
/-- The stream of a run has published events only. -/
theorem emitted_published [DecidableEq Address] (g : Genesis contract) (as : List (XlmVault.Action contract)) :
    ∀ ev ∈ emitted (trace (XlmVault.step contract) g.world as), Published ev := by
  refine history_invariant (XlmVault.step contract)
    (fun past _ => ∀ ev ∈ emitted past, Published ev) (fun ev hev => absurd hev List.not_mem_nil)
    (fun past w a h => ?_) as
  rw [emitted_append, List.forall_mem_append]
  refine ⟨h, ?_⟩
  have hEffect := step_effect contract w a
  generalize (XlmVault.step contract w a).1 = w', (XlmVault.step contract w a).2 = o at hEffect
  intro ev hev
  cases hEffect with
  | failed call failure => cases hev
  | initialised token => cases hev
  | created token owner name d u id next => exact List.mem_singleton.mp hev ▸ .create ..
  | deposited token caller id amount balance v => exact List.mem_singleton.mp hev ▸ .deposit ..
  | extended caller id seconds u v => exact List.mem_singleton.mp hev ▸ .extend ..
  | withdrawn token caller id v => exact List.mem_singleton.mp hev ▸ .withdraw ..
  | advanced timestamp => cases hev
  | outside t => cases hev

/-- An RPC that answers every request, and the requests of pages with events of
the stream. The first answer is the latest ledger. -/
structure Serves (stream : List (EventResponse Address)) (answers : Nat → Answer Address) :
    Prop where
  answered : ∀ n, (answers n).error = none
  events : ∀ n, ∀ ev ∈ (answers (n + 1)).events, ev ∈ stream

/-- The pages such an RPC would answer with, as many as are ever asked for. -/
def pagesOf (answers : Nat → Answer Address) : List (Answer Address) :=
  (List.range maxPages).map fun n => answers (n + 1)

/-- One fetch from its start to its end. -/
def fetchRun (now : Int) (answers : Nat → Answer Address) :
    List (Action Int (Answer Address) Change) :=
  .start now :: answered (answers 0 :: pagesOf answers)

omit [Arithmetic] in
theorem pagesOf_length (answers : Nat → Answer Address) : (pagesOf answers).length = maxPages := by
  unfold pagesOf
  rw [List.length_map, List.length_range]

theorem final_fetchRun (s : Shared) (now : Int) (answers : Nat → Answer Address) :
    final (Interleaving.step (program key)) ⟨s, []⟩ (fetchRun now answers) =
      final (Interleaving.step (program key))
        ⟨(fetchContractEvents s now).shared, [(fetchContractEvents s now).point]⟩
        (answered (answers 0 :: pagesOf answers)) := by
  unfold fetchRun
  rw [final]
  rfl

/-- After every run of the contract a published event has a row exactly if the
unlock time it carries, if any, is a date; and a fetch from an RPC that serves
the stream resolves exactly if it can take its answer from the memory cache or
all events of the pages it reads carry dates. -/
theorem fetch_resolves_iff [DecidableEq Address] (key : StrKey Address) (g : Genesis contract)
    (as : List (XlmVault.Action contract)) :
    let stream := emitted (trace (XlmVault.step contract) g.world as)
    (∀ ev ∈ stream, (∃ row, parseEvent key ev = .ok (some row)) ↔ Dated ev) ∧
    ∀ (s : Shared) (now : Int) (answers : Nat → Answer Address), Serves stream answers →
      (Resolved (final (Interleaving.step (program key)) ⟨s, []⟩ (fetchRun now answers)) ↔
        (∃ cache, s.eventCache = some cache ∧ now - cache.time < eventCacheMs) ∨
          ∀ ev ∈ readEvents (pagesOf answers) none 0, Dated ev) := by
  intro stream
  have hPublished := emitted_published g as
  refine ⟨fun ev hev => (hPublished ev hev).row_iff, ?_⟩
  intro s now answers hServes
  rw [final_fetchRun]
  unfold fetchContractEvents
  split
  · next cache hCache =>
      obtain ⟨hSome, hFresh⟩ := Option.filter_eq_some_iff.mp hCache
      rw [final_finished]
      exact iff_of_true ⟨_, rfl⟩ (Or.inl ⟨cache, hSome, of_decide_eq_true hFresh⟩)
  · next hStale =>
      have hNoCache : ¬ ∃ cache, s.eventCache = some cache ∧ now - cache.time < eventCacheMs := by
        rintro ⟨cache, hSome, hFresh⟩
        rw [hSome, Option.filter_some, if_pos (decide_eq_true hFresh)] at hStale
        cases hStale
      rw [or_iff_right hNoCache]
      rw [final_answered]
      simp only [resume, hServes.answered 0]
      have hLength := pagesOf_length answers
      refine pageLoop_resolves_iff (pagesOf answers) s _ _ _ ?_ ?_ ?_
      · intro hEmpty
        rw [hEmpty] at hLength
        cases hLength
      · rw [hLength]
        exact Nat.zero_add _
      · intro page hPage
        obtain ⟨n, _, rfl⟩ := List.mem_map.mp hPage
        exact ⟨hServes.answered (n + 1), fun ev hev => hPublished ev (hServes.events n ev hev)⟩

end Fetch

section Sample

attribute [local instance] Arithmetic.double

/-- The answers of an RPC whose first page has all there is. -/
def singlePage (stream : List (EventResponse Address)) : Nat → Answer Address :=
  fun _ => { now := 0, error := none, sequence := 100, events := stream, cursor := none }

/-- An RPC that has the whole stream on one page serves it. -/
theorem serves_singlePage (stream : List (EventResponse Address)) :
    Serves stream (singlePage stream) :=
  ⟨fun _ => rfl, fun _ _ h => h⟩

theorem pagesOf_head (answers : Nat → Answer Address) :
    ∃ rest, pagesOf answers = answers 1 :: rest := by
  unfold pagesOf maxPages
  rw [List.range_succ_eq_map]
  exact ⟨_, rfl⟩

/-- The module as it is loaded for the first time. -/
def fresh : Shared := initial ⟨"CONTRACT", none⟩ fun _ => none

/-- A vault that is locked for as long as the contract can say. -/
def endlessRun : List (XlmVault.Action (0 : Nat)) :=
  [.invoke everyone willing (.init 1), .advance 1767200000,
    .invoke everyone willing
      (.createVault 7 "Rent" ⟨900, by decide, by decide⟩ 18446744073709551615)]

/-- Its one event makes every fetch reject. -/
theorem endlessRun_rejects :
    let stream := emitted (trace (XlmVault.step (0 : Nat)) sampleGenesis.world endlessRun)
    stream.length = 1 ∧ Serves stream (singlePage stream) ∧
      (final (Interleaving.step (program numbered)) ⟨fresh, []⟩
        (fetchRun 0 (singlePage stream))).calls =
          [.finished (.error (.thrown .rangeError))] := by
  intro stream
  have hStream : stream = [⟨⟨[.symbol "create", .address 7], [.u64 0,
      .i128 ⟨900, by decide, by decide⟩, .u64 18446744073709551615]⟩, 1767200000⟩] := rfl
  have hThrown : parseEvents numbered stream = .error .rangeError := by
    rw [hStream, parseEvents, parse_create]
    rfl
  refine ⟨rfl, serves_singlePage stream, ?_⟩
  obtain ⟨rest, hPages⟩ := pagesOf_head (singlePage stream)
  have hStart : fetchContractEvents fresh 0 = ⟨fresh, .latest 1 0, ()⟩ := rfl
  have hLatest : resume numbered fresh (.latest 1 0) (singlePage stream 0) =
      requestPage fresh 1 0 ⟨100, [], none, 0⟩ := rfl
  have hPage (request : EventsRequest) (loop : PageLoop) :
      resume numbered fresh (.page 1 0 request loop) (singlePage stream 1) =
        ⟨fresh, .finished (.error (.thrown .rangeError)), ()⟩ := by
    show readPage numbered fresh 1 request loop (singlePage stream 1) = _
    unfold readPage
    rw [show (singlePage stream 1).events = stream from rfl, hThrown]
  rw [final_fetchRun, hStart, final_answered, hLatest, hPages, final_answered, requestPage, hPage,
    final_finished]

theorem fetch_resolves_noon :
    let stream := emitted (trace (XlmVault.step (0 : Nat)) sampleGenesis.world noonRun)
    Resolved (final (Interleaving.step (program numbered)) ⟨fresh, []⟩
      (fetchRun 0 (singlePage stream))) := by
  intro stream
  have hStream : stream = [⟨⟨[.symbol "create", .address 7], [.u64 0,
      .i128 ⟨700, by decide, by decide⟩, .u64 1767268800]⟩, 1767200000⟩] := rfl
  apply ((fetch_resolves_iff numbered sampleGenesis noonRun).2 fresh 0 (singlePage stream)
    (serves_singlePage stream)).mpr
  obtain ⟨rest, hPages⟩ := pagesOf_head (singlePage stream)
  have hRead : readEvents (pagesOf (singlePage stream)) none 0 = stream := by
    rw [hPages, readEvents]
    exact List.append_nil stream
  right
  rw [hRead, hStream]
  intro ev hEv u hu
  rw [List.mem_singleton.mp hEv] at hu
  cases hu
  decide

end Sample

end EventFetch
