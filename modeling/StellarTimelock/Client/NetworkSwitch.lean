import StellarTimelock.Client.FetchEvents

/-! Switching the network among fetches: when the memory cache and the disk keep
to the contract they are for. -/
namespace EventFetch

open SorobanClient Interleaving Execution FloatingPoint

variable {Address : Type} {key : StrKey Address}

/-- All events are those of one contract. -/
def Belong (contract : String) (events : List Owned) : Prop := ∀ e ∈ events, e.contract = contract

/-- What the disk may hold under the key of a contract. -/
def Filed (contract : String) (payload : PersistedEvents) : Prop :=
  payload.contractId = contract ∧ Belong contract payload.events

/-- Each cache holds events of the contract it is read for. -/
structure NoBleed (s : Shared) : Prop where
  cache : ∀ cache, s.eventCache = some cache → Belong s.active.contractId cache.data
  disk : ∀ contract payload, s.disk (eventDiskKey contract) = some payload → Filed contract payload

/-- The same of the writes under way. -/
structure Sealed (s : Shared) : Prop extends NoBleed s where
  pending : ∀ contract payload,
    .setItem (eventDiskKey contract) payload ∈ s.pending → Filed contract payload

/-- What a suspended fetch relies on while the given contract is active. -/
def Point.Safe (active : String) : Point → Prop
  | .page _ _ request loop => request.contractId = active ∧ Belong active loop.events
  | .readingDisk diskKey _ => ∃ contract, diskKey = eventDiskKey contract
  | .diskItem parsed _ => ∀ p, parsed = some p → Belong p.contractId p.events
  | .diskRead disk _ => ∀ p, disk = some p → Belong active p.events
  | .latest _ _ => True
  | .finished _ => True

/-- The fetch has asked for a page, or holds events from the disk, and has yet
to put what it gets into the cache. -/
def Point.holdsEvents : Point → Prop
  | .page _ _ _ _ => True
  | .diskRead (some disk) _ => disk.events ≠ []
  | _ => False

/-- The active contract is not exchanged under a fetch that holds events. -/
def Undisturbed (s : System Shared Point) : Action Int (Answer Address) Change → Prop
  | .event (.switchDeployment deployment) =>
      deployment.contractId = s.shared.active.contractId ∨ ∀ point ∈ s.calls, ¬ point.holdsEvents
  | _ => True

/-- Two lists of events belong to a contract together exactly if each does. -/
theorem belong_append {contract : String} {first second : List Owned} :
    Belong contract (first ++ second) ↔ Belong contract first ∧ Belong contract second :=
  List.forall_mem_append

theorem belong_parsed (contract : String) (parsed : List ParsedEvent) :
    Belong contract (parsed.map (Owned.mk contract)) := by
  intro e he
  obtain ⟨event, _, rfl⟩ := List.mem_map.mp he
  rfl

/-- A stretch leaves the active deployment alone, keeps the caches true and
suspends its call at a safe point. -/
structure Keeps (s : Shared) (turn : Turn Shared Point Unit) : Prop where
  active : turn.shared.active = s.active
  caches : Sealed turn.shared
  point : turn.point.Safe s.active.contractId

variable {s : Shared}

theorem Sealed.rotateRpcUrl (hSealed : Sealed s) : Sealed s.rotateRpcUrl :=
  ⟨⟨hSealed.cache, hSealed.disk⟩, hSealed.pending⟩

/-- Asking for a page keeps the caches filed: the request names the active
contract, as do the events already read. -/
theorem requestPage_keeps (hSealed : Sealed s) (total attempt : Nat) {loop : PageLoop}
    (h : Belong s.active.contractId loop.events) : Keeps s (requestPage s total attempt loop) :=
  ⟨rfl, hSealed, rfl, h⟩

/-- Turning to the disk keeps the caches filed: the entry that is asked for is
that of the active contract. -/
theorem readDiskCache_keeps (hSealed : Sealed s) (error : SorobanError) :
    Keeps s (readDiskCache s error) :=
  ⟨rfl, hSealed, _, rfl⟩

/-- The last stretch of a fetch fills the memory and writes to the disk under
the contract that is active then; its events are of the contract that it asked
about, so the two have to be one. -/
theorem complete_keeps (hSealed : Sealed s) (now : Int) {loop : PageLoop}
    (h : Belong s.active.contractId loop.events) : Keeps s (complete s now loop) := by
  refine ⟨rfl, ⟨⟨?_, hSealed.disk⟩, ?_⟩, trivial⟩
  · intro cache hCache
    cases hCache
    exact h
  · intro contract payload hMem
    rcases List.mem_append.mp hMem with hOld | hNew
    · exact hSealed.pending contract payload hOld
    · have hWrite := List.mem_singleton.mp hNew
      injection hWrite with hKey hPayload
      have hContract : contract = s.active.contractId := eventDiskKey_injective hKey
      subst hContract hPayload
      exact ⟨rfl, h⟩

/-- Reading a page keeps the caches filed, as long as the page is of the active
contract. -/
theorem readPage_keeps [Arithmetic] (hSealed : Sealed s) (total : Nat) {request : EventsRequest}
    {loop : PageLoop} (hRequest : request.contractId = s.active.contractId)
    (h : Belong s.active.contractId loop.events) (answer : Answer Address) :
    Keeps s (readPage key s total request loop answer) := by
  unfold readPage
  split
  · exact ⟨rfl, hSealed, trivial⟩
  · next parsed _ =>
      have hEvents : Belong s.active.contractId
          (loop.events ++ parsed.map (Owned.mk request.contractId)) := by
        rw [hRequest]
        exact belong_append.mpr ⟨h, belong_parsed _ parsed⟩
      simp only
      split
      · exact complete_keeps hSealed _ hEvents
      · split
        · exact requestPage_keeps hSealed _ _ hEvents
        · exact complete_keeps hSealed _ hEvents

/-- The first stretch of a fetch keeps the caches filed: what it returns from
the memory is of the active contract, as a switch empties the memory. -/
theorem start_keeps (hSealed : Sealed s) (now : Int) : Keeps s (fetchContractEvents s now) := by
  unfold fetchContractEvents
  split
  · exact ⟨rfl, hSealed, trivial⟩
  · exact ⟨rfl, hSealed, trivial⟩

/-- Every later stretch keeps the caches filed, if the fetch was safe where it
waited: the events and the entry that it holds are of the active contract. -/
theorem resume_keeps [Arithmetic] (hSealed : Sealed s) {point : Point} (h : point.Safe s.active.contractId)
    (answer : Answer Address) : Keeps s (resume key s point answer) := by
  cases point with
  | latest total attempt =>
      simp only [resume]
      split
      · exact requestPage_keeps hSealed _ _ (fun e he => absurd he List.not_mem_nil)
      · split
        · exact readDiskCache_keeps hSealed _
        · exact ⟨rfl, hSealed.rotateRpcUrl, trivial⟩
  | page total attempt request loop =>
      simp only [resume]
      split
      · exact readPage_keeps hSealed total h.1 h.2 answer
      · split
        · exact readDiskCache_keeps hSealed _
        · obtain ⟨-, hKept, hPoint⟩ := requestPage_keeps hSealed.rotateRpcUrl total (attempt + 1) h.2
          exact ⟨rfl, hKept, hPoint⟩
  | readingDisk diskKey error =>
      obtain ⟨contract, rfl⟩ := h
      refine ⟨rfl, hSealed, ?_⟩
      show Point.Safe _ (if answer.error = none then _ else _)
      split
      · intro p hp
        obtain ⟨hContract, hEvents⟩ := hSealed.disk contract p hp
        rw [hContract]
        exact hEvents
      · intro p hp
        cases hp
  | diskItem parsed error =>
      refine ⟨rfl, hSealed, ?_⟩
      intro p hp
      obtain ⟨hParsed, hAccepted⟩ := Option.filter_eq_some_iff.mp hp
      rw [← (of_decide_eq_true hAccepted).1]
      exact h p hParsed
  | diskRead disk error =>
      cases disk with
      | none => exact ⟨rfl, hSealed, trivial⟩
      | some disk =>
          refine ⟨rfl, ⟨⟨?_, hSealed.disk⟩, hSealed.pending⟩, trivial⟩
          intro cache hCache
          cases hCache
          exact h disk rfl
  | finished result => exact ⟨rfl, hSealed, trivial⟩

/-- A write that lands files its payload under the right key. -/
theorem settle_sealed (hSealed : Sealed s) (number : Nat) (succeeds : Bool) :
    Sealed (change s (.settle number succeeds)).1 := by
  simp only [change]
  split
  · exact hSealed
  · next operation hOperation =>
      refine ⟨⟨hSealed.cache, ?_⟩, fun contract payload hMem =>
        hSealed.pending contract payload (List.mem_of_mem_eraseIdx hMem)⟩
      intro contract payload hDisk
      cases succeeds with
      | false => exact hSealed.disk contract payload hDisk
      | true =>
          cases operation with
          | setItem diskKey written =>
              change Function.update s.disk diskKey (some written) _ = _ at hDisk
              rw [Function.update_apply] at hDisk
              split at hDisk
              · next hKey =>
                  cases hDisk
                  exact hSealed.pending contract _ (hKey ▸ List.mem_of_getElem? hOperation)
              · exact hSealed.disk contract payload hDisk
          | removeItem diskKey =>
              change Function.update s.disk diskKey none _ = _ at hDisk
              rw [Function.update_apply] at hDisk
              split at hDisk
              · cases hDisk
              · exact hSealed.disk contract payload hDisk

/-- A point that holds no events stays safe whatever contract becomes active. -/
theorem Point.Safe.elsewhere {point : Point} {active : String} (h : point.Safe active)
    (hFree : ¬ point.holdsEvents) (other : String) : point.Safe other := by
  cases point with
  | latest total attempt => trivial
  | page total attempt request loop => exact absurd trivial hFree
  | readingDisk diskKey error => exact h
  | diskItem parsed error => exact h
  | diskRead disk error =>
      intro p hp
      subst hp
      have hNone : p.events = [] := not_not.mp hFree
      intro e he
      rw [hNone] at he
      cases he
  | finished result => trivial

/-- The local assertions: the caches are filed, and every fetch is safe where it
waits. A switch breaks the second for the fetches that hold events, which is
what the runs in question leave out. -/
theorem network_outline [Arithmetic] : Outline (program key) Undisturbed (fun _ s => Sealed s)
    (fun _ s point => point.Safe s.active.contractId) where
  start past s now hSealed hPoints _ := by
    have hKeeps := start_keeps hSealed now
    refine ⟨hKeeps.caches, ?_, ?_⟩
    · show Point.Safe (fetchContractEvents s.shared now).shared.active.contractId _
      rw [hKeeps.active]
      exact hKeeps.point
    · intro point hPoint
      show Point.Safe (fetchContractEvents s.shared now).shared.active.contractId _
      rw [hKeeps.active]
      exact hPoints point hPoint
  resume past s number point answer hSealed hPoints hPoint _ := by
    have hKeeps : Keeps s.shared (resume key s.shared point answer) :=
      resume_keeps hSealed (hPoints point (List.mem_of_getElem? hPoint)) answer
    refine ⟨hKeeps.caches, ?_, ?_⟩
    · show Point.Safe (resume key s.shared point answer).shared.active.contractId _
      rw [hKeeps.active]
      exact hKeeps.point
    · intro other l _ hOther
      show Point.Safe (resume key s.shared point answer).shared.active.contractId _
      rw [hKeeps.active]
      exact hPoints l (List.mem_of_getElem? hOther)
  event past s e hSealed hPoints hStep := by
    cases e with
    | switchDeployment deployment =>
        refine ⟨⟨⟨fun cache h => (by cases h), hSealed.disk⟩, hSealed.pending⟩, ?_⟩
        intro point hPoint
        rcases hStep with hSame | hFree
        · show point.Safe deployment.contractId
          rw [hSame]
          exact hPoints point hPoint
        · exact (hPoints point hPoint).elsewhere (hFree point hPoint) deployment.contractId
    | moveRpcUrl url =>
        exact ⟨⟨⟨hSealed.cache, hSealed.disk⟩, hSealed.pending⟩, hPoints⟩
    | invalidateAllCaches =>
        refine ⟨⟨⟨fun cache h => (by cases h), hSealed.disk⟩, ?_⟩, hPoints⟩
        intro contract payload hMem
        rcases List.mem_append.mp hMem with hOld | hNew
        · exact hSealed.pending contract payload hOld
        · cases List.mem_singleton.mp hNew
    | settle number succeeds =>
        refine ⟨settle_sealed hSealed number succeeds, ?_⟩
        have hActive : (change s.shared (.settle number succeeds)).1.active = s.shared.active := by
          simp only [change]
          split <;> rfl
        intro point hPoint
        show point.Safe (change s.shared (.settle number succeeds)).1.active.contractId
        rw [hActive]
        exact hPoints point hPoint
  idle past s hSealed := ⟨hSealed, fun _ h => h⟩

/-- A page with one event, after which there is no other page. -/
def onePage (owner : Address) : Answer Address where
  now := 0
  error := none
  sequence := 0
  events := [⟨⟨[.symbol "withdraw", .address owner], [.u64 0, .i128 0]⟩, 0⟩]
  cursor := none

/-- After a switch, a fetch that is at a page of the other contract brings that
page's events into the caches of the active one as soon as the page is the last.
-/
theorem bleeds_of_page [Arithmetic] {s : System Shared Point} {number total attempt : Nat}
    {request : EventsRequest} {loop : PageLoop}
    (hPoint : s.calls[number]? = some (.page total attempt request loop))
    (hOther : request.contractId ≠ s.shared.active.contractId) (owner : Address) :
    ¬ NoBleed (step (program key) s (.resume number (onePage owner))).1.shared := by
  rw [step_resume_some hPoint]
  intro h
  exact hOther (h.cache _ rfl _ (List.mem_append_right _ (List.mem_singleton.mpr rfl)))

/-- The same of a fetch that has read an entry of the disk when the contract is
switched. -/
theorem bleeds_of_diskRead [Arithmetic] {s : System Shared Point} {number : Nat} {disk : PersistedEvents}
    {error : SorobanError} {contract : String}
    (hPoint : s.calls[number]? = some (.diskRead (some disk) error))
    (hEvents : disk.events ≠ []) (hBelong : Belong contract disk.events)
    (hOther : contract ≠ s.shared.active.contractId) (owner : Address) :
    ¬ NoBleed (step (program key) s (.resume number (onePage owner))).1.shared := by
  rw [step_resume_some hPoint]
  intro h
  obtain ⟨e, he⟩ := List.exists_mem_of_ne_nil disk.events hEvents
  exact hOther ((hBelong e he).symm.trans (h.cache _ rfl e he))

/-- In every run that never exchanges the active contract under a fetch that
holds events, both caches keep to their contracts. The first step that does
exchange it can be followed by one after which they do not. -/
theorem caches_keep_to_contract [Arithmetic] [Inhabited Address] (active : Deployment)
    (disk : String → Option PersistedEvents)
    (hDisk : ∀ contract payload, disk (eventDiskKey contract) = some payload →
      Filed contract payload)
    (as : List (Action Int (Answer Address) Change))
    (hAlong : Along (step (program key)) Undisturbed ⟨initial active disk, []⟩ as) :
    NoBleed (final (step (program key)) ⟨initial active disk, []⟩ as).shared ∧
      ∀ a, ¬ Undisturbed (final (step (program key)) ⟨initial active disk, []⟩ as) a →
        ∃ more, ¬ NoBleed
          (final (step (program key)) ⟨initial active disk, []⟩ (as ++ a :: more)).shared := by
  have hInitial : Sealed (initial active disk) :=
    ⟨⟨fun cache h => (by cases h), hDisk⟩, fun contract payload h => absurd h List.not_mem_nil⟩
  obtain ⟨hSealed, hPoints⟩ := network_outline.along hInitial as hAlong
  refine ⟨hSealed.toNoBleed, ?_⟩
  intro a hViolates
  cases a with
  | start now => exact absurd trivial hViolates
  | resume number answer => exact absurd trivial hViolates
  | event e =>
      cases e with
      | moveRpcUrl url => exact absurd trivial hViolates
      | invalidateAllCaches => exact absurd trivial hViolates
      | settle number succeeds => exact absurd trivial hViolates
      | switchDeployment deployment =>
          simp only [Undisturbed, not_or, not_forall, not_not, exists_prop] at hViolates
          obtain ⟨hOther, point, hMem, hHolds⟩ := hViolates
          obtain ⟨number, hPoint⟩ := List.mem_iff_getElem?.mp hMem
          have hSafe := hPoints point hMem
          let after := (step (program key) (final (step (program key)) ⟨initial active disk, []⟩ as)
            (.event (.switchDeployment deployment))).1
          have hAfter : after.calls[number]? = some point := hPoint
          refine ⟨[.resume number (onePage default)], ?_⟩
          rw [final_append]
          show ¬ NoBleed (step (program key) after (.resume number (onePage default))).1.shared
          cases point with
          | latest total attempt => cases hHolds
          | page total attempt request loop =>
              exact bleeds_of_page hAfter (fun h => hOther (h.symm.trans hSafe.1)) default
          | readingDisk diskKey error => cases hHolds
          | diskItem parsed error => cases hHolds
          | diskRead found error =>
              cases found with
              | none => cases hHolds
              | some found =>
                  exact bleeds_of_diskRead hAfter hHolds (hSafe found rfl) (Ne.symm hOther) default
          | finished result => cases hHolds

section Sample

attribute [local instance] Arithmetic.double

/-- The network is switched while a page of the old contract is under way. -/
def switchedFetch : List (Action Int (Answer Nat) Change) :=
  [.start 0, .resume 0 (onePage 7), .event (.switchDeployment ⟨"MAINNET", none⟩),
    .resume 0 (onePage 7)]

/-- Its event is then cached as one of the new contract. -/
theorem switchedFetch_bleeds : ¬ NoBleed (final (step (program numbered))
    ⟨initial ⟨"TESTNET", none⟩ (fun _ => none), []⟩ switchedFetch).shared := by
  intro h
  have hSame := h.cache _ rfl _ (List.mem_singleton.mpr rfl)
  exact absurd hSame (by decide)

theorem caches_keep_to_contract_sample : NoBleed (final (step (program numbered))
    ⟨initial ⟨"TESTNET", none⟩ (fun _ => none), []⟩
    [.start 0, .resume 0 (onePage 7), .resume 0 (onePage 7),
      .event (.switchDeployment ⟨"MAINNET", none⟩)]).shared := by
  refine (caches_keep_to_contract _ _ ?_ _ ?_).1
  · intro contract payload h
    cases h
  · refine ⟨trivial, trivial, trivial, Or.inr ?_, trivial⟩
    intro point hPoint hHolds
    cases List.mem_singleton.mp hPoint
    cases hHolds

end Sample

end EventFetch
