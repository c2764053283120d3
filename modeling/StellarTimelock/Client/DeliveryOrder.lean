import StellarTimelock.Client.Amounts

/-! The direction in which the events are delivered. The replay sorts by the
second before it folds, so events of one ledger keep the order of delivery: a
deposit that is delivered before the `create` event of its ledger is dropped, and
amounts are added up in another order. -/
namespace SorobanClient

open XlmVault Execution Transaction StableSort FloatingPoint

variable {Address : Type} {contract : Address}

/-! The events of one vault, in both directions. -/

/-- An event of a vault after its `create` event. -/
structure Follows (c e : ParsedEvent) : Prop where
  kind : e.kind ≠ .create
  later : c.timestamp ≤ e.timestamp
  due : e.kind = .withdraw → c.timestamp < e.timestamp

/-- The events of a vault in later ledgers than its `create` event. -/
def laterLedgers (c : ParsedEvent) (rest : List ParsedEvent) : List ParsedEvent :=
  rest.filter fun e => !(e.timestamp ≤ c.timestamp)

/-- The same events as they are folded when the stream is delivered backwards:
what is left of them are those of later ledgers, and in each of these the last
event comes first. -/
def regrouped (c : ParsedEvent) (rest : List ParsedEvent) : List ParsedEvent :=
  (laterLedgers c rest).reverse.insertionSort fun a b => a.timestamp ≤ b.timestamp

/-- The events of a vault that are folded when the stream is delivered backwards,
given those that are folded otherwise. -/
def backwards : List ParsedEvent → List ParsedEvent
  | [] => []
  | created :: rest => created :: regrouped created rest

theorem regrouped_perm (c : ParsedEvent) (rest : List ParsedEvent) :
    (regrouped c rest).Perm (laterLedgers c rest) :=
  (List.perm_insertionSort _ _).trans (List.reverse_perm _)

theorem dropWhile_append_create {before : List ParsedEvent} {c : ParsedEvent}
    (hBefore : ∀ e ∈ before, e.kind ≠ .create) (hCreate : c.kind = .create)
    (after : List ParsedEvent) :
    (before ++ c :: after).dropWhile (fun e => e.kind ≠ .create) = c :: after := by
  induction before with
  | nil => exact List.dropWhile_cons_of_neg (by simpa using hCreate)
  | cons e before ih =>
      have hFirst := hBefore e List.mem_cons_self
      rw [List.cons_append, List.dropWhile_cons_of_pos (by simpa using hFirst)]
      exact ih fun d hd => hBefore d (List.mem_cons_of_mem e hd)

/-- Delivered in ascending order, nothing is moved and nothing is lost. -/
theorem dropWhile_ascending {c : ParsedEvent} {rest : List ParsedEvent}
    (hCreate : c.kind = .create)
    (hSorted : (c :: rest).Pairwise fun a b => a.timestamp ≤ b.timestamp) :
    ((c :: rest).insertionSort fun a b => a.timestamp ≤ b.timestamp).dropWhile
      (fun e => e.kind ≠ .create) = c :: rest := by
  rw [hSorted.insertionSort_eq]
  exact List.dropWhile_cons_of_neg (by simpa using hCreate)

/-- Delivered in descending order, the events of the ledger of the `create`
event are folded before it, and so they are lost. -/
theorem dropWhile_descending {c : ParsedEvent} {rest : List ParsedEvent}
    (hCreate : c.kind = .create) (hRest : ∀ e ∈ rest, Follows c e) :
    ((c :: rest).reverse.insertionSort fun a b => a.timestamp ≤ b.timestamp).dropWhile
      (fun e => e.kind ≠ .create) = backwards (c :: rest) := by
  have hDown : ∀ a b : ParsedEvent, a.timestamp ≤ b.timestamp →
      decide (b.timestamp ≤ c.timestamp) = true → decide (a.timestamp ≤ c.timestamp) = true := by
    intro a b hab hb
    exact decide_eq_true (Int.le_trans hab (of_decide_eq_true hb))
  have hTies : ∀ e ∈ ((c :: rest).reverse.filter fun e => e.timestamp ≤ c.timestamp),
      e.timestamp = c.timestamp := by
    intro e he
    obtain ⟨hMem, hLe⟩ := List.mem_filter.mp he
    rcases List.mem_cons.mp (List.mem_reverse.mp hMem) with rfl | hLater
    · rfl
    · exact Int.le_antisymm (of_decide_eq_true hLe) (hRest e hLater).later
  have hLater : (c :: rest).reverse.filter (fun e => !(e.timestamp ≤ c.timestamp)) =
      (laterLedgers c rest).reverse := by
    rw [List.filter_reverse, List.filter_cons_of_neg (by simp)]
    rfl
  rw [insertionSort_split hDown, insertionSort_of_ties (fun a ha b hb =>
    Int.le_of_eq ((hTies a ha).trans (hTies b hb).symm)), hLater, List.filter_reverse,
    List.filter_cons_of_pos (by simp), List.reverse_cons, List.append_assoc,
    List.singleton_append]
  refine dropWhile_append_create ?_ hCreate _
  intro e he
  exact (hRest e (List.mem_filter.mp (List.mem_reverse.mp he)).1).kind

theorem withdraws_laterLedgers {c : ParsedEvent} {rest : List ParsedEvent}
    (hRest : ∀ e ∈ rest, Follows c e) : withdraws (laterLedgers c rest) = withdraws rest := by
  unfold withdraws laterLedgers
  rw [Bool.eq_iff_iff, List.any_eq_true, List.any_eq_true]
  constructor
  · rintro ⟨e, he, hKind⟩
    exact ⟨e, (List.mem_filter.mp he).1, hKind⟩
  · rintro ⟨e, he, hKind⟩
    have hDue := (hRest e he).due (of_decide_eq_true hKind)
    exact ⟨e, List.mem_filter.mpr ⟨he, by simpa using hDue⟩, hKind⟩

theorem withdraws_backwards {c : ParsedEvent} {rest : List ParsedEvent}
    (hRest : ∀ e ∈ rest, Follows c e) : withdraws (backwards (c :: rest)) = withdraws (c :: rest) := by
  have hPerm := withdraws_perm (regrouped_perm c rest)
  show (_ || withdraws (regrouped c rest)) = (_ || withdraws rest)
  rw [hPerm, withdraws_laterLedgers hRest]

/-- What the rows of the two directions have to agree on. -/
structure Replayed where
  balance : Rat
  withdrawn : Bool
  createdTimestamp : Int
  deriving DecidableEq

def Vault.replayed (v : Vault) : Replayed := ⟨v.balance, v.status = .withdrawn, v.createdTimestamp⟩

section Row

variable (owner : String) (nowSec : Int) (offMeta : VaultMeta) (r : Option RemoteMeta)

theorem row_replayed (v : Accum) :
    let gone := v.withdrawn || r.bind (·.onChainStatus) = some "withdrawn"
    (v.row owner nowSec offMeta r).replayed =
      ⟨if gone then 0 else (r.bind (·.balanceXlm)).getD v.balanceXlm, gone,
        if 0 < v.createdTimestamp then v.createdTimestamp
        else parseIsoToUnix (r.bind fun r => r.createdAt.or r.updatedAt)⟩ := by
  intro gone
  unfold Vault.replayed Accum.row
  rw [Replayed.mk.injEq]
  refine ⟨?_, ?_, rfl⟩
  · show (if gone then (0 : Rat) else _) = _
    cases hGone : gone with
    | true => rfl
    | false =>
        have hStay : v.withdrawn = false := (Bool.or_eq_false_iff.mp hGone).1
        cases r.bind (·.balanceXlm) with
        | none => rfl
        | some xlm => simp [hStay]
  · show decide ((if gone then Status.withdrawn else _) = Status.withdrawn) = gone
    cases gone with
    | true => rfl
    | false =>
        simp only [Bool.false_eq_true, if_false]
        split_ifs <;> rfl

/-- Two accumulators that differ at most in balance and lock time give the same
row exactly if the row does not show their balances or these agree. -/
theorem rows_replayed_eq_iff {u v : Accum} (hCreated : u.createdTimestamp = v.createdTimestamp)
    (hWithdrawn : u.withdrawn = v.withdrawn) :
    (u.row owner nowSec offMeta r).replayed = (v.row owner nowSec offMeta r).replayed ↔
      v.withdrawn = true ∨ r.bind (·.onChainStatus) = some "withdrawn" ∨
        (r.bind (·.balanceXlm)).isSome = true ∨ u.balanceXlm = v.balanceXlm := by
  rw [row_replayed, row_replayed, hCreated, hWithdrawn, Replayed.mk.injEq]
  cases v.withdrawn with
  | true => simp
  | false =>
      by_cases hGone : r.bind (·.onChainStatus) = some "withdrawn"
      · simp [hGone]
      · cases r.bind (·.balanceXlm) with
        | none => simp [hGone]
        | some xlm => simp [hGone]

end Row

/-! The events of a vault along a run. -/

/-- The events of other vaults than that of the last event. -/
theorem filter_concat_other {before : List ParsedEvent} {e : ParsedEvent} {id : String}
    (h : e.vaultId ≠ id) :
    (before ++ [e]).filter (fun e => e.vaultId = id) = before.filter fun e => e.vaultId = id := by
  rw [List.filter_append, List.filter_cons_of_neg (by simpa using h), List.filter_nil,
    List.append_nil]

theorem filter_concat_own {before : List ParsedEvent} {e : ParsedEvent} {id : String}
    (h : e.vaultId = id) : (before ++ [e]).filter (fun e => e.vaultId = id) =
      (before.filter fun e => e.vaultId = id) ++ [e] := by
  rw [List.filter_append, List.filter_cons_of_pos (by simpa using h), List.filter_nil]

section Runs

variable [Arithmetic] {key : StrKey Address}

/-- The events of each stored vault are its `create` event and events that
follow it, and their amounts are what has been paid in. -/
def Chronicled (key : StrKey Address) (past : List (Observation contract)) (w : World Address) :
    Prop :=
  ∀ events, parseEvents key (emitted past) = .ok events → ∀ id v, w.storage.vault id = some v →
    ∃ c rest, (events.filter fun e => e.vaultId = idText id) = c :: rest ∧ c.kind = .create ∧
      c.timestamp = v.createdTimestamp.toNat ∧ (∀ e ∈ rest, Follows c e) ∧
        payments (c :: rest) = (paidIn (receipts past) id).map stroopsToXlm

theorem Chronicled.genesis (key : StrKey Address) (g : Genesis contract) :
    Chronicled key ([] : List (Observation contract)) g.world := by
  intro events hEvents id v hVault
  cases hVault

variable {past : List (Observation contract)} {w w' : World Address} {o : Observation contract}

/-- A step that emits nothing, pays nothing and creates no vault. -/
theorem Chronicled.quiet (h : Chronicled key past w) (hNone : emitted [o] = [])
    (hPaid : ∀ id, paidIn (receipts (past ++ [o])) id = paidIn (receipts past) id)
    (hKept : w'.storage.vault = w.storage.vault) : Chronicled key (past ++ [o]) w' := by
  intro events hEvents id v hVault
  rw [hKept] at hVault
  rw [hPaid]
  exact h events (parse_emitted_none hNone hEvents) id v hVault

/-- A call that emits one event of a stored vault. -/
theorem Chronicled.emit {r : Receipt Address} (h : Chronicled key past w)
    {ev : EventResponse Address} (hOne : emitted ([.invoked r] : List (Observation contract)) = [ev])
    {id : UInt64} {v v' : XlmVault.Vault Address} (hVault : w.storage.vault id = some v)
    (hWritten : w'.storage.vault = Function.update w.storage.vault id (some v'))
    (hCreated : v'.createdTimestamp = v.createdTimestamp)
    (hPays : ∀ k, k ≠ id → pays k r = none)
    (hParsed : ∀ parsed, parseEvent key ev = .ok parsed → ∃ e, parsed = some e ∧
      e.vaultId = idText id ∧ payments [e] = (pays id r).toList.map stroopsToXlm ∧
        ∀ c : ParsedEvent, c.timestamp = v.createdTimestamp.toNat → Follows c e) :
    Chronicled key (past ++ [.invoked r]) w' := by
  intro events hEvents k u hu
  obtain ⟨before, parsed, hBefore, hNew, rfl⟩ := parse_emitted_one hOne hEvents
  obtain ⟨e, rfl, hId, hAmount, hFollows⟩ := hParsed parsed hNew
  rw [hWritten] at hu
  rw [Option.toList_some, receipts_invoked]
  by_cases hk : k = id
  · subst hk
    rw [Function.update_self, Option.some.injEq] at hu
    obtain ⟨c, rest, hFilter, hCreate, hTime, hRest, hPaid⟩ := h before hBefore k v hVault
    refine ⟨c, rest ++ [e], ?_, hCreate, ?_, ?_, ?_⟩
    · rw [filter_concat_own hId, hFilter, List.cons_append]
    · rw [← hu, hCreated, hTime]
    · intro d hd
      rcases List.mem_append.mp hd with hd | hd
      · exact hRest d hd
      · rw [List.mem_singleton.mp hd]
        exact hFollows c hTime
    · rw [← List.cons_append, payments_append, hPaid, hAmount, paidIn_concat, List.map_append]
  · rw [Function.update_of_ne hk] at hu
    rw [filter_concat_other fun hSame => hk (idText_injective (hSame.symm.trans hId)),
      paidIn_concat_none (hPays k hk)]
    exact h before hBefore k u hu

/-- A call that emits the `create` event of a vault it stores. -/
theorem Chronicled.create {r : Receipt Address} (h : Chronicled key past w)
    (hAttributed : Attributed key past w) {ev : EventResponse Address}
    (hOne : emitted ([.invoked r] : List (Observation contract)) = [ev]) {id : UInt64}
    {v : XlmVault.Vault Address} (hFresh : w.storage.vault id = none)
    (hUnpaid : paidIn (receipts past) id = [])
    (hWritten : w'.storage.vault = Function.update w.storage.vault id (some v))
    (hPays : ∀ k, k ≠ id → pays k r = none)
    (hParsed : ∀ parsed, parseEvent key ev = .ok parsed → ∃ e, parsed = some e ∧
      e.vaultId = idText id ∧ e.kind = .create ∧ e.timestamp = v.createdTimestamp.toNat ∧
        payments [e] = (pays id r).toList.map stroopsToXlm) :
    Chronicled key (past ++ [.invoked r]) w' := by
  intro events hEvents k u hu
  obtain ⟨before, parsed, hBefore, hNew, rfl⟩ := parse_emitted_one hOne hEvents
  obtain ⟨e, rfl, hId, hCreate, hTime, hAmount⟩ := hParsed parsed hNew
  rw [hWritten] at hu
  rw [Option.toList_some, receipts_invoked]
  by_cases hk : k = id
  · subst hk
    rw [Function.update_self, Option.some.injEq] at hu
    have hNone : (before.filter fun e => e.vaultId = idText k) = [] := by
      rw [List.filter_eq_nil_iff]
      intro d hd hSame
      obtain ⟨j, t, hStored, hText, -⟩ := hAttributed before hBefore d hd
      have hOwn : k = j := idText_injective ((of_decide_eq_true hSame).symm.trans hText)
      rw [← hOwn, hFresh] at hStored
      cases hStored
    refine ⟨e, [], ?_, hCreate, ?_, fun d hd => absurd hd List.not_mem_nil, ?_⟩
    · rw [filter_concat_own hId, hNone, List.nil_append]
    · rw [← hu, hTime]
    · rw [hAmount, paidIn_concat, hUnpaid, List.nil_append]
  · rw [Function.update_of_ne hk] at hu
    rw [filter_concat_other fun hSame => hk (idText_injective (hSame.symm.trans hId)),
      paidIn_concat_none (hPays k hk)]
    exact h before hBefore k u hu

variable [DecidableEq Address]

theorem Chronicled.effect (h : Chronicled key past w) (hStreamed : Streamed key past w)
    (hEffect : Effect contract w w' o) : Chronicled key (past ++ [o]) w' := by
  have hSound := hStreamed.sound
  cases hEffect with
  | failed call failure =>
      refine h.quiet rfl (fun id => ?_) rfl
      rw [receipts_invoked]
      exact paidIn_concat_none (by cases call <;> rfl)
  | initialised token =>
      refine h.quiet rfl (fun id => ?_) rfl
      rw [receipts_invoked]
      exact paidIn_concat_none rfl
  | created token owner name d u id next hOwner hAmount hTime hToken hId =>
      have hFresh : w.storage.vault id = none := by
        rw [hId]
        exact hSound.allocated.fresh hToken
      have hPaid : pays id ⟨.createVault owner name d u, w.now, .ok (.id id),
          [⟨token, owner, contract, d⟩], [⟨[.symbol "create", .address owner],
            [.u64 id, .i128 d, .u64 u]⟩]⟩ = some d.val := if_pos rfl
      refine h.create hStreamed.attributed rfl hFresh (hStreamed.tracked.unpaid id hFresh) rfl
        (fun k hk => if_neg hk.symm) ?_
      intro parsed hParsed
      rw [parse_create] at hParsed
      split_ifs at hParsed
      cases hParsed
      rw [hPaid]
      exact ⟨_, rfl, rfl, rfl, rfl, rfl⟩
  | deposited token caller id amount balance v hCaller hAmount hVault =>
      have hPast := UInt64.le_iff_toNat_le.mp (hSound.wellFormed id v hVault).created_in_past
      have hPaid : pays id ⟨.deposit caller id amount, w.now, .ok .unit,
          [⟨token, caller, contract, amount⟩], [⟨[.symbol "deposit", .address caller],
            [.u64 id, .i128 amount]⟩]⟩ = some amount.val := if_pos rfl
      refine h.emit rfl hVault rfl rfl (fun k hk => if_neg hk.symm) ?_
      intro parsed hParsed
      rw [parse_deposit] at hParsed
      cases hParsed
      rw [hPaid]
      refine ⟨_, rfl, rfl, rfl, fun c hTime => ⟨by simp, ?_, by simp⟩⟩
      simp only
      omega
  | extended caller id seconds u v hSeconds hVault =>
      have hPast := UInt64.le_iff_toNat_le.mp (hSound.wellFormed id v hVault).created_in_past
      refine h.emit rfl hVault rfl rfl (fun _ _ => rfl) ?_
      intro parsed hParsed
      rw [parse_extend] at hParsed
      split_ifs at hParsed
      cases hParsed
      refine ⟨_, rfl, rfl, rfl, fun c hTime => ⟨by simp, ?_, by simp⟩⟩
      simp only
      omega
  | withdrawn token caller id v hCaller hVault hOwner hLive hUnlocked =>
      have hBefore :=
        UInt64.lt_iff_toNat_lt.mp (hSound.wellFormed id v hVault).created_before_unlock
      have hDue := UInt64.le_iff_toNat_le.mp hUnlocked
      refine h.emit rfl hVault rfl rfl (fun _ _ => rfl) ?_
      intro parsed hParsed
      rw [parse_withdraw] at hParsed
      cases hParsed
      refine ⟨_, rfl, rfl, rfl, fun c hTime => ⟨by simp, ?_, fun _ => ?_⟩⟩
      · simp only
        omega
      · simp only
        omega
  | advanced timestamp =>
      refine h.quiet rfl (fun id => ?_) rfl
      rw [receipts_advanced]
  | outside t =>
      refine h.quiet rfl (fun id => ?_) rfl
      rw [receipts_moved]

theorem Chronicled.reachable (key : StrKey Address) (g : Genesis contract)
    (as : List (Action contract)) :
    Chronicled key (trace (step contract) g.world as) (final (step contract) g.world as) := by
  refine (history_invariant (step contract)
    (fun past w => Streamed key past w ∧ Chronicled key past w)
    ⟨Streamed.genesis key g, Chronicled.genesis key g⟩ ?_ as).2
  intro past w a h
  have hEffect := step_effect contract w a
  exact ⟨h.1.effect hEffect, h.2.effect h.1 hEffect⟩

end Runs

/-- The owner of a stored vault sees all of its events. -/
theorem vaultEvents_stored [Arithmetic] {key : StrKey Address} {past : List (Observation contract)}
    {w : World Address} (hAttributed : Attributed key past w) {events : List ParsedEvent}
    (hEvents : parseEvents key (emitted past) = .ok events) {id : UInt64}
    {v : XlmVault.Vault Address} (hVault : w.storage.vault id = some v) :
    vaultEvents events (key.encode v.owner) (idText id) =
      events.filter fun e => e.vaultId = idText id := by
  rw [vaultEvents, List.filter_comm]
  refine List.filter_eq_self.mpr fun e he => decide_eq_true ?_
  obtain ⟨he, hId⟩ := List.mem_filter.mp he
  exact hAttributed.owner hEvents he hVault (of_decide_eq_true hId)

/-- The events that the replay folds for a vault: none, or its `create` event
and events that follow it. -/
theorem vaultEvents_cases [Arithmetic] {key : StrKey Address} {past : List (Observation contract)}
    {w : World Address} (hAttributed : Attributed key past w) (h : Chronicled key past w)
    {events : List ParsedEvent} (hEvents : parseEvents key (emitted past) = .ok events)
    (owner id : String) : vaultEvents events owner id = [] ∨
      ∃ c rest, vaultEvents events owner id = c :: rest ∧ c.kind = .create ∧
        ∀ e ∈ rest, Follows c e := by
  cases hOwn : vaultEvents events owner id with
  | nil => exact Or.inl rfl
  | cons e es =>
      right
      have hMem : e ∈ vaultEvents events owner id := by
        rw [hOwn]
        exact List.mem_cons_self
      obtain ⟨hMine, hId⟩ := List.mem_filter.mp hMem
      obtain ⟨hEvent, hOwner⟩ := List.mem_filter.mp hMine
      obtain ⟨k, v, hVault, hText, hKey⟩ := hAttributed events hEvents e hEvent
      have hSame : idText k = id := hText.symm.trans (of_decide_eq_true hId)
      obtain ⟨c, rest, hFilter, hCreate, -, hRest, -⟩ := h events hEvents k v hVault
      have hSameOwner : key.encode v.owner = owner := by
        rw [← hKey]
        exact of_decide_eq_true hOwner
      rw [← hOwn, ← hSame, ← hSameOwner, vaultEvents_stored hAttributed hEvents hVault]
      exact ⟨c, rest, hFilter, hCreate, hRest⟩

/-- Read backwards, the stream gives the same events backwards. -/
theorem parseEvents_reverse [Arithmetic] {key : StrKey Address}
    {stream : List (EventResponse Address)}
    {ascending : List ParsedEvent} (h : parseEvents key stream = .ok ascending) :
    parseEvents key stream.reverse = .ok ascending.reverse := by
  induction stream generalizing ascending with
  | nil =>
      cases h
      rfl
  | cons ev stream ih =>
      obtain ⟨parsed, later, hHead, hLater, rfl⟩ := parseEvents_cons_ok.mp h
      rw [List.reverse_cons]
      refine parseEvents_append_ok.mpr ⟨later.reverse, parsed.toList, ih hLater, ?_, ?_⟩
      · exact parseEvents_cons_ok.mpr ⟨parsed, [], hHead, rfl, (List.append_nil _).symm⟩
      · rw [List.reverse_append]
        cases parsed <;> rfl

theorem vaultEvents_reverse (events : List ParsedEvent) (owner id : String) :
    vaultEvents events.reverse owner id = (vaultEvents events owner id).reverse := by
  unfold vaultEvents
  rw [List.filter_reverse, List.filter_reverse]

/-- The row of a vault does not depend on the direction: it shows no balance of
the replay, as the vault is withdrawn, or the backend says so or has a balance for
it; or the amounts of its events add up to the same balance in both orders. -/
def Lossless [Arithmetic] (r : Option RemoteMeta) (es : List ParsedEvent) : Prop :=
  (∃ e ∈ es, e.kind = .withdraw) ∨ r.bind (·.onChainStatus) = some "withdrawn" ∨
    (r.bind (·.balanceXlm)).isSome = true ∨ paid (backwards es) = paid es

/-- The two replays of one vault, forwards and backwards in the seconds that its
events share, show the same row if and only if nothing of the payments is lost.
-/
theorem direction_iff [Arithmetic] {c : ParsedEvent} {rest : List ParsedEvent}
    (hCreate : c.kind = .create) (hRest : ∀ e ∈ rest, Follows c e) (owner : String) (nowSec : Int)
    (loadMeta : String → VaultMeta) (remoteMetasById : String → Option RemoteMeta) {id : String}
    (hId : c.vaultId = id) :
    ((seededAccum (c :: rest)).map fun v =>
        (v.row owner nowSec (loadMeta v.vaultId) (remoteMetasById v.vaultId)).replayed) =
      ((seededAccum (backwards (c :: rest))).map fun v =>
        (v.row owner nowSec (loadMeta v.vaultId) (remoteMetasById v.vaultId)).replayed) ↔
      Lossless (remoteMetasById id) (c :: rest) := by
  have hGone : withdraws (c :: regrouped c rest) = withdraws (c :: rest) :=
    withdraws_backwards hRest
  have hWithdrawn : (accumAfter c rest).withdrawn = (accumAfter c (regrouped c rest)).withdrawn := by
    rw [accumAfter_withdrawn _ hCreate, accumAfter_withdrawn _ hCreate, hGone]
  rw [backwards, seededAccum, seededAccum, Option.map_some, Option.map_some, Option.some.injEq,
    accumAfter_vaultId, accumAfter_vaultId, hId, rows_replayed_eq_iff _ _ _ _ ((accumAfter_created rest hCreate).trans
      (accumAfter_created (regrouped c rest) hCreate).symm) hWithdrawn,
    accumAfter_withdrawn _ hCreate, hGone]
  unfold Lossless
  rw [← withdraws_iff]
  cases hStay : withdraws (c :: rest) with
  | true => simp
  | false =>
      rw [accumAfter_balance rest hCreate hStay,
        accumAfter_balance (regrouped c rest) hCreate (hGone.trans hStay), eq_comm (a := paid _)]
      rfl

/-! When the amounts add up to the same balance. -/

/-- No two payments into the vault have the same second. -/
def SpreadOut (es : List ParsedEvent) : Prop :=
  (es.filter fun e => e.kind = .create ∨ e.kind = .deposit).Pairwise
    fun a b => a.timestamp ≠ b.timestamp

/-- The vault is topped up in the second in which it is created. -/
def ToppedUpAtOnce (es : List ParsedEvent) : Prop :=
  ∃ c ∈ es, c.kind = .create ∧ ∃ e ∈ es, e.kind = .deposit ∧ e.timestamp = c.timestamp

/-- Payments of which no two share a second keep their order. -/
theorem paid_backwards_spread [Arithmetic] {c : ParsedEvent} {rest : List ParsedEvent}
    (hCreate : c.kind = .create)
    (hSorted : (c :: rest).Pairwise fun a b => a.timestamp ≤ b.timestamp)
    (hSpread : SpreadOut (c :: rest)) : paid (backwards (c :: rest)) = paid (c :: rest) := by
  unfold SpreadOut at hSpread
  rw [List.filter_cons_of_pos (by simp [hCreate]), List.pairwise_cons] at hSpread
  obtain ⟨hFirst, hOther⟩ := hSpread
  obtain ⟨hAfter, hLater⟩ := List.pairwise_cons.mp hSorted
  -- No payment is made in the ledger of the `create` event.
  have hKept : (laterLedgers c rest).filter (fun e => e.kind = .create ∨ e.kind = .deposit) =
      rest.filter fun e => e.kind = .create ∨ e.kind = .deposit := by
    unfold laterLedgers
    rw [List.filter_filter]
    apply List.filter_congr
    intro e he
    cases hPay : decide (e.kind = .create ∨ e.kind = .deposit) with
    | false => rfl
    | true =>
        have hApart := hFirst e (List.mem_filter.mpr ⟨he, hPay⟩)
        have hNot : ¬ e.timestamp ≤ c.timestamp :=
          fun hLe => hApart (Int.le_antisymm (hAfter e he) hLe)
        simp [hNot]
  have hStrict : (rest.filter fun e => e.kind = .create ∨ e.kind = .deposit).Pairwise
      fun a b => ¬ b.timestamp ≤ a.timestamp := by
    refine ((hLater.sublist List.filter_sublist).and hOther).imp ?_
    intro a b hab hba
    exact hab.2 (Int.le_antisymm hab.1 hba)
  have hSame : payments (regrouped c rest) = payments rest := by
    unfold payments regrouped
    rw [filter_insertionSort, List.filter_reverse, hKept, insertionSort_reverse hStrict]
  unfold paid backwards
  rw [payments_cons, payments_cons, hSame]

section Double

attribute [local instance] Arithmetic.double

/-- Two parts of some amounts are the amounts of two parts. -/
theorem exists_stroops {ns : List Int} {first second : List Rat}
    (h : (ns.map stroopsToXlm).Perm (first ++ second)) :
    ∃ kept lost : List Int, ns.Perm (kept ++ lost) ∧ first = kept.map stroopsToXlm ∧
      second = lost.map stroopsToXlm := by
  obtain ⟨parts, hPerm, hEq⟩ := exists_map_of_perm h.symm
  obtain ⟨kept, lost, rfl, hKept, hLost⟩ := List.map_eq_append_iff.mp hEq.symm
  exact ⟨kept, lost, hPerm.symm, hKept.symm, hLost.symm⟩

/-- A deposit that is lost is missed: its stroops are not made up for by the
rounding of the others. -/
theorem paid_backwards_ne {c : ParsedEvent} {rest : List ParsedEvent} {ns : List Int}
    (hCreate : c.kind = .create) (hRest : ∀ e ∈ rest, Follows c e)
    (hPayments : payments (c :: rest) = ns.map stroopsToXlm) (hPositive : ∀ n ∈ ns, 0 < n)
    (hFew : (ns.length + 3) * ns.sum < 2 ^ 51) (hTopped : ToppedUpAtOnce (c :: rest)) :
    paid (backwards (c :: rest)) ≠ paid (c :: rest) := by
  have hNonneg : ∀ n ∈ ns, 0 ≤ n := fun n hn => Int.le_of_lt (hPositive n hn)
  -- What is folded backwards, and what is lost.
  have hParts : (payments (c :: rest)).Perm (payments (backwards (c :: rest)) ++
      payments (rest.filter fun e => e.timestamp ≤ c.timestamp)) := by
    rw [← payments_append]
    refine payments_perm (List.Perm.cons c ?_)
    have hSplit := List.filter_append_perm (fun e => decide (e.timestamp ≤ c.timestamp)) rest
    exact hSplit.symm.trans (List.perm_append_comm.trans
      ((regrouped_perm c rest).symm.append_right _))
  rw [hPayments] at hParts
  obtain ⟨kept, lost, hStroops, hKept, hLost⟩ := exists_stroops hParts
  have hSum : ns.sum = kept.sum + lost.sum := by rw [hStroops.sum_eq, List.sum_append]
  have hPositiveLost : ∀ n ∈ lost, 0 < n :=
    fun n hn => hPositive n (hStroops.mem_iff.mpr (List.mem_append_right _ hn))
  have hNonnegKept : ∀ n ∈ kept, 0 ≤ n :=
    fun n hn => hNonneg n (hStroops.mem_iff.mpr (List.mem_append_left _ hn))
  have hMissed : 0 < lost.sum := by
    obtain ⟨d, hd, hCreated, e, he, hDeposit, hTime⟩ := hTopped
    have hOwn : d = c := by
      rcases List.mem_cons.mp hd with hOwn | hd
      · exact hOwn
      · exact absurd hCreated (hRest d hd).kind
    have hLater : e ∈ rest := by
      rcases List.mem_cons.mp he with rfl | he
      · rw [hCreate] at hDeposit
        cases hDeposit
      · exact he
    have hPaid : e.amount ∈ lost.map stroopsToXlm := by
      rw [← hLost]
      refine mem_payments.mpr ⟨e, List.mem_filter.mpr ⟨hLater, ?_⟩, Or.inr hDeposit, rfl⟩
      exact decide_eq_true (by rw [hTime, hOwn])
    obtain ⟨n, hn, -⟩ := List.mem_map.mp hPaid
    have hPart := List.single_le_sum (fun n hn => Int.le_of_lt (hPositiveLost n hn)) n hn
    have hOne := hPositiveLost n hn
    omega
  have hFewKept : (kept.length + 3) * kept.sum < 2 ^ 51 := by
    have hLength := hStroops.length_eq
    rw [List.length_append] at hLength
    refine lt_of_le_of_lt (mul_le_mul ?_ ?_ (List.sum_nonneg hNonnegKept) ?_) hFew <;> omega
  intro hSame
  unfold paid at hSame
  have hStroopsSame := congrArg xlmToStroops hSame
  rw [hKept, hPayments, xlmToStroops_amounts hNonnegKept hFewKept,
    xlmToStroops_amounts hNonneg hFew] at hStroopsSame
  omega

end Double

variable [DecidableEq Address]

/-- After every run whose events parse, both directions give an owner the same
rows if and only if that holds of every vault. -/
theorem directions_agree_iff [Arithmetic] (key : StrKey Address) (g : Genesis contract)
    (as : List (Action contract)) (owner : String) (loadMeta : String → VaultMeta) (nowSec : Int)
    (remoteMetasById : String → Option RemoteMeta) {ascending descending : List ParsedEvent}
    (hAscending : parseEvents key (emitted (trace (step contract) g.world as)) = .ok ascending)
    (hDescending :
      parseEvents key (emitted (trace (step contract) g.world as)).reverse = .ok descending) :
    let rows := fun events =>
      aggregateVaultsFromEvents loadMeta nowSec events owner remoteMetasById
    (∀ id, ((rows ascending).find? fun v => v.vaultId = id).map Vault.replayed =
        ((rows descending).find? fun v => v.vaultId = id).map Vault.replayed) ↔
      ∀ id, Lossless (remoteMetasById id) (vaultEvents ascending owner id) := by
  intro rows
  have hStreamed := Streamed.reachable key g as
  have hChronicled := Chronicled.reachable key g as
  have hSame : descending = ascending.reverse := by
    have hReversed := parseEvents_reverse hAscending
    rw [hDescending, Except.ok.injEq] at hReversed
    exact hReversed
  have hSorted (id : String) : (vaultEvents ascending owner id).Pairwise
      fun a b => a.timestamp ≤ b.timestamp :=
    (hStreamed.tracked.mirrors ascending hAscending).sorted.sublist
      (List.filter_sublist.trans List.filter_sublist)
  apply forall_congr'
  intro id
  rw [find?_aggregate, find?_aggregate, Option.map_map, Option.map_map, find?_replay_seeded,
    find?_replay_seeded, hSame, seeded, seeded, vaultEvents_reverse]
  rcases vaultEvents_cases hStreamed.attributed hChronicled hAscending owner id with
    hNone | ⟨c, rest, hSome, hCreate, hRest⟩
  · rw [hNone]
    exact iff_of_true rfl (Or.inr (Or.inr (Or.inr rfl)))
  · have hId : c.vaultId = id := by
      have hMem : c ∈ vaultEvents ascending owner id := by
        rw [hSome]
        exact List.mem_cons_self
      exact of_decide_eq_true (List.mem_filter.mp hMem).2
    have hOrdered := hSorted id
    rw [hSome] at hOrdered ⊢
    rw [dropWhile_ascending hCreate hOrdered, dropWhile_descending hCreate hRest]
    exact direction_iff hCreate hRest owner nowSec loadMeta remoteMetasById hId

section Double

attribute [local instance] Arithmetic.double

/-- After every run whose events parse, both directions give an owner the same
rows if and only if every vault of theirs is withdrawn, or the backend says so or
has a balance for it, or its payments add up in double precision to the same
balance in both orders. They do where no two payments share a second; where a
vault is topped up in the second of its creation, they do not. -/
theorem delivery_direction_iff (key : StrKey Address) (g : Genesis contract)
    (as : List (Action contract)) (owner : String) (loadMeta : String → VaultMeta) (nowSec : Int)
    (remoteMetasById : String → Option RemoteMeta) {ascending descending : List ParsedEvent}
    (hAscending : parseEvents key (emitted (trace (step contract) g.world as)) = .ok ascending)
    (hDescending :
      parseEvents key (emitted (trace (step contract) g.world as)).reverse = .ok descending) :
    let rows := fun events =>
      aggregateVaultsFromEvents loadMeta nowSec events owner remoteMetasById
    ((∀ id, ((rows ascending).find? fun v => v.vaultId = id).map Vault.replayed =
        ((rows descending).find? fun v => v.vaultId = id).map Vault.replayed) ↔
      ∀ id, Lossless (remoteMetasById id) (vaultEvents ascending owner id)) ∧
    (∀ id, SpreadOut (vaultEvents ascending owner id) →
      paid (backwards (vaultEvents ascending owner id)) =
        paid (vaultEvents ascending owner id)) ∧
    ∀ id v, (final (step contract) g.world as).storage.vault id = some v →
      key.encode v.owner = owner → v.withdrawn = false →
      ((paidIn (receipts (trace (step contract) g.world as)) id).length + 3) * v.balance.val <
        2 ^ 51 →
      ToppedUpAtOnce (vaultEvents ascending owner (idText id)) →
      paid (backwards (vaultEvents ascending owner (idText id))) ≠
        paid (vaultEvents ascending owner (idText id)) := by
  have hStreamed := Streamed.reachable key g as
  have hChronicled := Chronicled.reachable key g as
  refine ⟨directions_agree_iff key g as owner loadMeta nowSec remoteMetasById hAscending
    hDescending, ?_, ?_⟩
  · intro id hSpread
    have hSorted : (vaultEvents ascending owner id).Pairwise
        fun a b => a.timestamp ≤ b.timestamp :=
      (hStreamed.tracked.mirrors ascending hAscending).sorted.sublist
        (List.filter_sublist.trans List.filter_sublist)
    rcases vaultEvents_cases hStreamed.attributed hChronicled hAscending owner id with
      hNone | ⟨c, rest, hSome, hCreate, -⟩
    · rw [hNone]
      rfl
    · rw [hSome] at hSorted hSpread ⊢
      exact paid_backwards_spread hCreate hSorted hSpread
  · intro id v hVault hOwner hLive hFew hTopped
    have hSettled := Settled.reachable g as
    obtain ⟨c, rest, hFilter, hCreate, -, hRest, hPayments⟩ :=
      hChronicled ascending hAscending id v hVault
    rw [← hOwner, vaultEvents_stored hStreamed.attributed hAscending hVault, hFilter] at hTopped ⊢
    rw [← hSettled.balance id v hVault hLive] at hFew
    exact paid_backwards_ne hCreate hRest hPayments (hSettled.positive id) hFew hTopped

def noonTopUp (stroops timestamp : Int) : ParsedEvent :=
  ⟨"0", "7", .deposit, stroopsToXlm stroops, "", timestamp⟩

/-- The owner tops the noon vault up a minute after its creation. -/
def toppedUpLater : List (Action (0 : Nat)) :=
  noonRun ++ [.advance 1767200060,
    .invoke everyone willing (.deposit 7 0 ⟨25, by decide, by decide⟩)]

/-- The owner tops the noon vault up in the ledger that creates it. -/
def toppedUpRun : List (Action (0 : Nat)) :=
  noonRun ++ [.invoke everyone willing (.deposit 7 0 ⟨25, by decide, by decide⟩)]

/-- What the client is sent of the noon vault and a top-up of it. -/
theorem parse_noonTopUp (time : UInt64) : parseEvents numbered
    [⟨⟨[.symbol "create", .address 7], [.u64 0, .i128 ⟨700, by decide, by decide⟩,
        .u64 1767268800]⟩, 1767200000⟩,
      ⟨⟨[.symbol "deposit", .address 7], [.u64 0, .i128 ⟨25, by decide, by decide⟩]⟩, time⟩] =
    .ok [noonEvent, noonTopUp 25 time.toNat] := by
  rw [parseEvents, parse_create]
  rfl

/-- The owner creates a vault of 0.1 XLM and tops it up with 0.2 and 0.4 XLM in
one later ledger. -/
def tenthsRun : List (Action (0 : Nat)) :=
  [.invoke everyone willing (.init 1), .advance 1767200000,
    .invoke everyone willing
      (.createVault 7 "Rent" ⟨1000000, by decide, by decide⟩ 1767268800),
    .advance 1767200060,
    .invoke everyone willing (.deposit 7 0 ⟨2000000, by decide, by decide⟩),
    .invoke everyone willing (.deposit 7 0 ⟨4000000, by decide, by decide⟩)]

def tenthsEvent : ParsedEvent :=
  { noonEvent with amount := stroopsToXlm 1000000 }

theorem parse_tenthsRun : parseEvents numbered
    (emitted (trace (step (0 : Nat)) sampleGenesis.world tenthsRun)) =
      .ok [tenthsEvent, noonTopUp 2000000 1767200060, noonTopUp 4000000 1767200060] := by
  have hEmitted : emitted (trace (step (0 : Nat)) sampleGenesis.world tenthsRun) =
      [⟨⟨[.symbol "create", .address 7], [.u64 0,
          .i128 ⟨1000000, by decide, by decide⟩, .u64 1767268800]⟩, 1767200000⟩,
        ⟨⟨[.symbol "deposit", .address 7], [.u64 0,
          .i128 ⟨2000000, by decide, by decide⟩]⟩, 1767200060⟩,
        ⟨⟨[.symbol "deposit", .address 7], [.u64 0,
          .i128 ⟨4000000, by decide, by decide⟩]⟩, 1767200060⟩] := rfl
  rw [hEmitted, parseEvents, parse_create]
  rfl

/-- Topped up a minute later, both directions show the whole balance; topped up
at once, they do not add up the same amounts. -/
theorem delivery_direction_later :
    (let rows := fun events =>
      aggregateVaultsFromEvents (fun _ => emptyMeta) 1767225600 events "7" (fun _ => none)
    ((rows [noonEvent, noonTopUp 25 1767200060]).find? fun v => v.vaultId = "0").map
        Vault.replayed =
      ((rows [noonTopUp 25 1767200060, noonEvent]).find? fun v => v.vaultId = "0").map
        Vault.replayed) ∧
    paid (backwards [noonEvent, noonTopUp 25 1767200000]) ≠
      paid [noonEvent, noonTopUp 25 1767200000] := by
  have hLater : parseEvents numbered
      (emitted (trace (step (0 : Nat)) sampleGenesis.world toppedUpLater)) =
        .ok [noonEvent, noonTopUp 25 1767200060] := parse_noonTopUp 1767200060
  have hAtOnce : parseEvents numbered
      (emitted (trace (step (0 : Nat)) sampleGenesis.world toppedUpRun)) =
        .ok [noonEvent, noonTopUp 25 1767200000] := parse_noonTopUp 1767200000
  constructor
  · obtain ⟨hIff, hSpread, -⟩ := delivery_direction_iff numbered sampleGenesis toppedUpLater "7"
      (fun _ => emptyMeta) 1767225600 (fun _ => none) hLater (parseEvents_reverse hLater)
    refine hIff.mpr (fun id => Or.inr (Or.inr (Or.inr (hSpread id ?_)))) "0"
    have hAll : SpreadOut [noonEvent, noonTopUp 25 1767200060] := by
      unfold SpreadOut
      decide +kernel
    exact hAll.sublist ((List.filter_sublist.trans List.filter_sublist).filter _)
  · exact (delivery_direction_iff numbered sampleGenesis toppedUpRun "7" (fun _ => emptyMeta)
      1767225600 (fun _ => none) hAtOnce (parseEvents_reverse hAtOnce)).2.2 0
      ⟨0, 7, "Rent", ⟨725, by decide, by decide⟩, 1767268800, 1767200000, false⟩ rfl rfl rfl
      (by decide) ⟨noonEvent, by decide +kernel, rfl, noonTopUp 25 1767200000,
        by decide +kernel, rfl, rfl⟩

/-- In descending order a top-up at once is dropped, and 0.1, 0.4 and 0.2 XLM
add up to another double than 0.1, 0.2 and 0.4 XLM. -/
theorem toppedUp_dropped :
    let stream := emitted (trace (step (0 : Nat)) sampleGenesis.world toppedUpRun)
    let topUp := noonTopUp 25 1767200000
    let second := noonTopUp 2000000 1767200060
    let third := noonTopUp 4000000 1767200060
    let rows := fun events =>
      aggregateVaultsFromEvents (fun _ => emptyMeta) 1767225600 events "7" (fun _ => none)
    parseEvents numbered stream = .ok [noonEvent, topUp] ∧
    parseEvents numbered stream.reverse = .ok [topUp, noonEvent] ∧
    (rows [noonEvent, topUp]).map (·.balance) = [stroopsToXlm 725] ∧
    (rows [topUp, noonEvent]).map (·.balance) = [stroopsToXlm 700] ∧
    (¬ ∀ id, ((rows [noonEvent, topUp]).find? fun v => v.vaultId = id).map Vault.replayed =
      ((rows [topUp, noonEvent]).find? fun v => v.vaultId = id).map Vault.replayed) ∧
    parseEvents numbered (emitted (trace (step (0 : Nat)) sampleGenesis.world tenthsRun)) =
      .ok [tenthsEvent, second, third] ∧
    (rows [tenthsEvent, second, third]).map (·.balance) ≠
      (rows [third, second, tenthsEvent]).map (·.balance) := by
  intro stream topUp second third rows
  have hAscending : parseEvents numbered stream = .ok [noonEvent, topUp] :=
    parse_noonTopUp 1767200000
  refine ⟨hAscending, parseEvents_reverse hAscending, by decide +kernel, by decide +kernel, ?_,
    parse_tenthsRun, by decide +kernel⟩
  intro hSame
  exact absurd (hSame "0") (by decide +kernel)

end Double

end SorobanClient
