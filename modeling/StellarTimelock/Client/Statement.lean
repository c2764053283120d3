import StellarTimelock.Client.Listing
import StellarTimelock.Client.TransactionHistory
import StellarTimelock.Contract.Wealth

/-! The history of a wallet as an account statement: what its rows say was paid
in and out, each amount converted back to stroops, is what the contract received
and paid, and the difference is what the contract still holds. -/
namespace SorobanClient

open XlmVault Execution Transaction FloatingPoint

attribute [local instance] Arithmetic.double

variable {Address : Type} {contract : Address}

/-- The stroops that an event says were paid into a vault. -/
def credit (e : ParsedEvent) : Int :=
  match e.kind with
  | .create | .deposit => xlmToStroops e.amount
  | .extend | .withdraw => 0

/-- The stroops that an event says were paid out of a vault. -/
def debit (e : ParsedEvent) : Int :=
  match e.kind with
  | .withdraw => xlmToStroops e.amount
  | .create | .deposit | .extend => 0

/-- The total of a figure over rows. -/
def total (figure : ParsedEvent → Int) (rows : List ParsedEvent) : Int := (rows.map figure).sum

/-- No transfer is of more stroops than a conversion to XLM keeps apart. -/
def Representable (past : List (Receipt Address)) : Prop :=
  ∀ r ∈ past, ∀ t ∈ r.transfers, 3 * t.amount.val < 2 ^ 51

/-- If every transfer of a run is small enough, so is every one of its
beginning. -/
theorem Representable.past {past : List (Receipt Address)} {r : Receipt Address}
    (h : Representable (past ++ [r])) : Representable past :=
  fun q hq => h q (List.mem_append_left _ hq)

/-- The amount of the last transfer survives the conversions. -/
theorem Representable.last {past : List (Receipt Address)} {r : Receipt Address}
    (h : Representable (past ++ [r])) {t : Transfer Address} (hTransfer : r.transfers = [t])
    (hNonneg : 0 ≤ t.amount.val) : xlmToStroops (stroopsToXlm t.amount.val) = t.amount.val := by
  refine xlmToStroops_amount hNonneg ?_
  refine h r (List.mem_append_right _ (List.mem_singleton.mpr rfl)) t ?_
  rw [hTransfer]
  exact List.mem_singleton.mpr rfl

/-- A history as plain events. -/
def plain (rows : List VaultTransaction) : List ParsedEvent := rows.map (·.toParsedEvent)

/-- The balance that the contract keeps under an id. -/
def balanceOf (s : Storage Address) (id : UInt64) : Int :=
  (s.vault id).elim 0 fun v => v.balance.val

section Moved

variable [DecidableEq Address]

/-- What the transfers of an invocation took from one address to another. -/
def movedBy (r : Receipt Address) (source destination : Address) : Int :=
  ((r.transfers.filter fun t => t.source = source ∧ t.destination = destination).map
    (·.amount.val)).sum

def moved (past : List (Receipt Address)) (source destination : Address) : Int :=
  (past.map fun r => movedBy r source destination).sum

/-- One more receipt adds what it moves from one address to another. -/
theorem moved_concat (past : List (Receipt Address)) (r : Receipt Address)
    (source destination : Address) :
    moved (past ++ [r]) source destination =
      moved past source destination + movedBy r source destination := by
  simp [moved]

end Moved

section Total

variable {figure : ParsedEvent → Int}

theorem total_append (first second : List ParsedEvent) :
    total figure (first ++ second) = total figure first + total figure second := by
  simp [total]

/-- A total over rows does not depend on their order. -/
theorem total_perm {first second : List ParsedEvent} (h : first.Perm second) :
    total figure first = total figure second := (h.map figure).sum_eq

/-- One more event adds its figure to the totals of the selections that it
belongs to. -/
theorem total_filter_concat (p : ParsedEvent → Bool) (before : List ParsedEvent) (e : ParsedEvent) :
    total figure ((before ++ [e]).filter p) =
      total figure (before.filter p) + if p e then figure e else 0 := by
  rw [List.filter_append, total_append]
  cases hp : p e <;> simp [total, hp]

/-- Rows that are made of backend rows say of no payment. -/
theorem total_archived (hFigure : ∀ e : ParsedEvent, e.amount = 0 → figure e = 0) (owner : String)
    (metas : List RemoteMeta) : total figure (plain (metas.map (archivedCreate owner))) = 0 := by
  induction metas with
  | nil => rfl
  | cons r metas ih =>
      rw [List.map_cons, plain, List.map_cons, total, List.map_cons, List.sum_cons,
        hFigure (archivedCreate owner r).toParsedEvent rfl, zero_add]
      exact ih

theorem xlmToStroops_nothing : xlmToStroops 0 = 0 := by decide +kernel

/-- A row without an amount is no credit, which is how the rows of the backend
are harmless. -/
theorem credit_free (e : ParsedEvent) (h : e.amount = 0) : credit e = 0 := by
  unfold credit
  split
  · rw [h, xlmToStroops_nothing]
  · rw [h, xlmToStroops_nothing]
  · rfl
  · rfl

theorem debit_free (e : ParsedEvent) (h : e.amount = 0) : debit e = 0 := by
  unfold debit
  split
  · rw [h, xlmToStroops_nothing]
  all_goals rfl

variable {remoteMetas : String → Option (List RemoteMeta)} {all : List VaultTransaction}

theorem plain_filter (all : List VaultTransaction) (p : ParsedEvent → Bool) :
    plain (all.filter fun t => p t.toParsedEvent) = (plain all).filter p := by
  unfold plain
  rw [List.filter_map]
  rfl

/-- The wallet's history has the totals of the live events of its owner, for the
same reason. -/
theorem total_allTransactions (hFigure : ∀ e : ParsedEvent, e.amount = 0 → figure e = 0)
    (owner : String) : total figure (plain (allTransactions remoteMetas all owner)) =
      total figure ((plain all).filter fun e => e.ownerPublicKey = owner) := by
  have hPerm := (List.perm_insertionSort newestFirst ((all.filter fun t => t.ownerPublicKey = owner) ++
    fetchArchivedCreateEvents remoteMetas owner all)).map (·.toParsedEvent)
  refine (total_perm hPerm).trans ?_
  rw [List.map_append, total_append]
  have hLive : (all.filter fun t => t.ownerPublicKey = owner).map (·.toParsedEvent) =
      (plain all).filter fun e => e.ownerPublicKey = owner :=
    plain_filter all fun e => e.ownerPublicKey = owner
  rw [hLive]
  have hSynth := total_archived hFigure owner
    (((remoteMetas owner).getD []).filter fun r => !liveCreated all r.vaultId)
  exact (congrArg _ hSynth).trans (add_zero _)

/-- The history of one vault has the totals of its live events, for the rows
made of backend rows add nothing. -/
theorem total_vaultTransactions (hFigure : ∀ e : ParsedEvent, e.amount = 0 → figure e = 0)
    (id : String) : total figure (plain (vaultTransactions remoteMetas all id)) =
      total figure ((plain all).filter fun e => e.vaultId = id) := by
  have hLive : (all.filter fun t => t.vaultId = id).map (·.toParsedEvent) =
      (plain all).filter fun e => e.vaultId = id := plain_filter all fun e => e.vaultId = id
  unfold vaultTransactions
  refine (total_perm ((List.perm_insertionSort newestFirst _).map _)).trans ?_
  rw [List.map_append, total_append, hLive]
  split
  · next owner _ =>
      have hSynth : ((fetchArchivedCreateEvents remoteMetas owner all).filter
          fun t => t.vaultId = id) = ((((remoteMetas owner).getD []).filter
            fun r => !liveCreated all r.vaultId).filter fun r => r.vaultId = id).map
              (archivedCreate owner) := by
        unfold fetchArchivedCreateEvents
        rw [List.filter_map]
        rfl
      rw [hSynth]
      exact (congrArg _ (total_archived hFigure owner _)).trans (add_zero _)
  · exact add_zero _

end Total

section Runs

variable [DecidableEq Address] {key : StrKey Address}

/-- The parsed stream is the account book of every owner and of every vault. -/
structure Books (key : StrKey Address) (past : List (Observation contract)) (w : World Address)
    (events : List ParsedEvent) : Prop where
  inflow : ∀ a, total credit (eventsOf key a events) = moved (receipts past) a contract
  outflow : ∀ a, total debit (eventsOf key a events) = moved (receipts past) contract a
  savings : ∀ a, total credit (eventsOf key a events) - total debit (eventsOf key a events) =
    w.storage.savings a
  balance : ∀ id, total credit (events.filter fun e => e.vaultId = idText id) -
    total debit (events.filter fun e => e.vaultId = idText id) = balanceOf w.storage id

/-- What one event adds to the books of one owner and one vault. -/
structure Posting (key : StrKey Address) (e : ParsedEvent) (owner : Address) (id : UInt64)
    (received paid : Int) : Prop where
  owner : e.ownerPublicKey = key.encode owner
  vaultId : e.vaultId = idText id
  inflow : credit e = received
  outflow : debit e = paid

omit [DecidableEq Address] in
/-- One more event of an owner adds its figure to that owner's total and to
nobody else's. -/
theorem total_eventsOf_concat {figure : ParsedEvent → Int} {before : List ParsedEvent}
    {e : ParsedEvent} {owner : Address} (hOwner : e.ownerPublicKey = key.encode owner) (a : Address)
    [Decidable (owner = a)] : total figure (eventsOf key a (before ++ [e])) =
      total figure (eventsOf key a before) + if owner = a then figure e else 0 := by
  unfold eventsOf
  rw [total_filter_concat, hOwner]
  simp only [decide_eq_true_eq, key.injective.eq_iff]

/-- Posting one event that says what was received from its owner and what was
paid out keeps the books: the history, the transfers, the savings and the
balance of the vault move by the same amount. -/
theorem Books.post {past : List (Observation contract)} {w w' : World Address}
    {r : Receipt Address} {before : List ParsedEvent} {e : ParsedEvent}
    (h : Books key past w before) (owner : Address) (id : UInt64) (received paid : Int)
    (hPosting : Posting key e owner id received paid)
    (hIn : ∀ a, movedBy r a contract = if owner = a then received else 0)
    (hOut : ∀ a, movedBy r contract a = if owner = a then paid else 0)
    (hSavings : ∀ a, w'.storage.savings a =
      w.storage.savings a + if owner = a then received - paid else 0)
    (hBalance : ∀ k, balanceOf w'.storage k =
      balanceOf w.storage k + if id = k then received - paid else 0) :
    Books key (past ++ [.invoked r]) w' (before ++ [e]) where
  inflow a := by
    rw [total_eventsOf_concat hPosting.owner, h.inflow, hPosting.inflow, receipts_invoked,
      moved_concat, hIn]
  outflow a := by
    rw [total_eventsOf_concat hPosting.owner, h.outflow, hPosting.outflow, receipts_invoked,
      moved_concat, hOut]
  savings a := by
    have hOld := h.savings a
    rw [total_eventsOf_concat hPosting.owner, total_eventsOf_concat hPosting.owner, hPosting.inflow,
      hPosting.outflow, hSavings, ← hOld]
    split_ifs <;> ring
  balance k := by
    have hOld := h.balance k
    have hOwn : (idText id = idText k) = (id = k) := propext idText_injective.eq_iff
    rw [total_filter_concat, total_filter_concat, hPosting.vaultId, hPosting.inflow,
      hPosting.outflow, hBalance, ← hOld]
    simp only [decide_eq_true_eq, hOwn]
    split_ifs <;> ring

/-- A step without transfers that keeps every balance. -/
theorem Books.quiet {past : List (Observation contract)} {w w' : World Address}
    {o : Observation contract} {events : List ParsedEvent} (h : Books key past w events)
    (hMoved : ∀ a b, moved (receipts (past ++ [o])) a b = moved (receipts past) a b)
    (hSavings : ∀ a, w'.storage.savings a = w.storage.savings a)
    (hBalance : ∀ k, balanceOf w'.storage k = balanceOf w.storage k) :
    Books key (past ++ [o]) w' events where
  inflow a := by rw [hMoved, h.inflow]
  outflow a := by rw [hMoved, h.outflow]
  savings a := by rw [hSavings, h.savings]
  balance k := by rw [hBalance, h.balance]

omit [DecidableEq Address] in
/-- Rewriting a stored vault changes the balance under its id alone. -/
theorem balanceOf_putVault {w : World Address} {id : UInt64} {v : XlmVault.Vault Address}
    (hVault : w.storage.vault id = some v) (v' : XlmVault.Vault Address) (k : UInt64) :
    balanceOf (w.putVault id v').storage k =
      balanceOf w.storage k + if id = k then v'.balance.val - v.balance.val else 0 := by
  unfold balanceOf
  by_cases hk : id = k
  · subst hk
    rw [if_pos rfl, hVault]
    simp [World.putVault]
  · rw [if_neg hk, add_zero]
    simp [World.putVault, Ne.symm hk]

/-- One transfer between the contract and another address. -/
theorem movedBy_one (r : Receipt Address) {t : Transfer Address} (hOne : r.transfers = [t])
    (a b : Address) :
    movedBy r a b = if t.source = a ∧ t.destination = b then t.amount.val else 0 := by
  unfold movedBy
  rw [hOne, List.filter_cons, List.filter_nil]
  split_ifs <;> simp_all

/-- Every step keeps the books: by cases on what it does, each payment is one
event with the amount that was moved. -/
theorem Books.effect {past : List (Observation contract)} {w w' : World Address}
    {o : Observation contract} (hSound : w.Sound)
    (h : Representable (receipts past) →
      ∀ events, parseEvents key (emitted past) = .ok events → Books key past w events)
    (hEffect : Effect contract w w' o) (hSmall : Representable (receipts (past ++ [o])))
    (events : List ParsedEvent) (hEvents : parseEvents key (emitted (past ++ [o])) = .ok events) :
    Books key (past ++ [o]) w' events := by
  have hNothing (call : Call Address) (timestamp : UInt64) (result : Except Failure Reply)
      (a b : Address) : moved (receipts (past ++ [.invoked ⟨call, timestamp, result, [], []⟩])) a b =
        moved (receipts past) a b := by
    rw [receipts_invoked, moved_concat]
    exact add_zero _
  cases hEffect with
  | failed call failure =>
      rw [receipts_invoked] at hSmall
      exact (h hSmall.past events (parse_emitted_none rfl hEvents)).quiet (hNothing _ _ _) (fun _ => rfl)
        (fun _ => rfl)
  | initialised token =>
      rw [receipts_invoked] at hSmall
      exact (h hSmall.past events (parse_emitted_none rfl hEvents)).quiet (hNothing _ _ _) (fun _ => rfl)
        (fun _ => rfl)
  | created token owner name d u id next hOwner hAmount hTime hToken hId =>
      rw [receipts_invoked] at hSmall
      obtain ⟨before, parsed, hBefore, hParsed, rfl⟩ := parse_emitted_one rfl hEvents
      have hFresh : w.storage.vault id = none := by
        rw [hId]
        exact hSound.allocated.fresh hToken
      rw [parse_create] at hParsed
      split_ifs at hParsed
      cases hParsed
      have hFits : xlmToStroops (stroopsToXlm d.val) = d.val :=
        hSmall.last (t := ⟨token, owner, contract, d⟩) rfl (Int.le_of_lt hAmount)
      refine (h hSmall.past before hBefore).post owner id d.val 0 ⟨rfl, rfl, hFits, rfl⟩ ?_ ?_ ?_ ?_
      · intro a
        rw [movedBy_one _ rfl]
        simp only [and_true]
      · intro a
        rw [movedBy_one _ rfl]
        simp [hOwner]
      · intro a
        rw [Int.sub_zero]
        exact savings_create hSound.allocated hFresh a
      · intro k
        by_cases hk : id = k
        · subst hk
          unfold balanceOf
          rw [hFresh]
          simp [World.transfer, World.putVault]
        · unfold balanceOf
          simp [World.transfer, World.putVault, World.allocate, Ne.symm hk, hk]
  | deposited token caller id amount balance v hCaller hAmount hVault hOwner hLive hToken hBalance =>
      subst hOwner
      rw [receipts_invoked] at hSmall
      obtain ⟨before, parsed, hBefore, hParsed, rfl⟩ := parse_emitted_one rfl hEvents
      rw [parse_deposit] at hParsed
      cases hParsed
      have hSum := I128.checkedAdd_eq_some.mp hBalance
      have hFits : xlmToStroops (stroopsToXlm amount.val) = amount.val :=
        hSmall.last (t := ⟨token, v.owner, contract, amount⟩) rfl (Int.le_of_lt hAmount)
      have hChange : balance.val - v.balance.val = amount.val - 0 := by omega
      refine (h hSmall.past before hBefore).post v.owner id amount.val 0
        ⟨rfl, rfl, hFits, rfl⟩ ?_ ?_ ?_ ?_
      · intro a
        rw [movedBy_one _ rfl]
        simp only [and_true]
      · intro a
        rw [movedBy_one _ rfl]
        simp [hCaller]
      · intro a
        have hSavings := savings_putVault hSound.allocated hVault { v with balance } a
        simp only [hChange] at hSavings
        exact hSavings
      · intro k
        have hBooked := balanceOf_putVault hVault { v with balance } k
        simp only [hChange] at hBooked
        exact hBooked
  | extended caller id seconds u v hSeconds hVault hOwner =>
      subst hOwner
      rw [receipts_invoked] at hSmall
      obtain ⟨before, parsed, hBefore, hParsed, rfl⟩ := parse_emitted_one rfl hEvents
      rw [parse_extend] at hParsed
      split_ifs at hParsed
      cases hParsed
      refine (h hSmall.past before hBefore).post v.owner id 0 0
        ⟨rfl, rfl, rfl, rfl⟩ ?_ ?_ ?_ ?_
      · intro a
        rw [ite_self]
        rfl
      · intro a
        rw [ite_self]
        rfl
      · intro a
        have hSavings := savings_putVault hSound.allocated hVault { v with unlockTimestamp := u } a
        simp only [Int.sub_self, ite_self] at hSavings ⊢
        exact hSavings
      · intro k
        have hBooked := balanceOf_putVault hVault { v with unlockTimestamp := u } k
        simp only [Int.sub_self, ite_self] at hBooked ⊢
        exact hBooked
  | withdrawn token caller id v hCaller hVault hOwner =>
      subst hOwner
      rw [receipts_invoked] at hSmall
      obtain ⟨before, parsed, hBefore, hParsed, rfl⟩ := parse_emitted_one rfl hEvents
      rw [parse_withdraw] at hParsed
      cases hParsed
      have hFits : xlmToStroops (stroopsToXlm v.balance.val) = v.balance.val :=
        hSmall.last (t := ⟨token, contract, v.owner, v.balance⟩) rfl
          (hSound.wellFormed id v hVault).balance_nonneg
      refine (h hSmall.past before hBefore).post v.owner id 0 v.balance.val ⟨rfl, rfl, rfl, hFits⟩ ?_ ?_ ?_ ?_
      · intro a
        rw [movedBy_one _ rfl]
        simp [hCaller]
      · intro a
        rw [movedBy_one _ rfl]
        simp only [true_and]
      · intro a
        have hSavings := savings_putVault hSound.allocated hVault
          { v with balance := 0, withdrawn := true } a
        simp only [I128.val_zero] at hSavings
        exact hSavings
      · intro k
        have hBooked := balanceOf_putVault hVault { v with balance := 0, withdrawn := true } k
        simp only [I128.val_zero] at hBooked
        exact hBooked
  | advanced timestamp =>
      rw [receipts_advanced] at hSmall
      exact (h hSmall events (parse_emitted_none rfl hEvents)).quiet
        (fun a b => by rw [receipts_advanced]) (fun _ => rfl) (fun _ => rfl)
  | outside t =>
      rw [receipts_moved] at hSmall
      exact (h hSmall events (parse_emitted_none rfl hEvents)).quiet
        (fun a b => by rw [receipts_moved]) (fun _ => rfl) (fun _ => rfl)

/-- So the events of every run with small enough transfers are its books. -/
theorem Books.reachable (key : StrKey Address) (g : Genesis contract) (as : List (Action contract))
    (hSmall : Representable (receipts (trace (step contract) g.world as))) :
    ∀ events, parseEvents key (emitted (trace (step contract) g.world as)) = .ok events →
      Books key (trace (step contract) g.world as) (final (step contract) g.world as) events := by
  refine (history_invariant (step contract)
    (fun past w => w.Sound ∧ (Representable (receipts past) →
      ∀ events, parseEvents key (emitted past) = .ok events → Books key past w events))
        ⟨World.Sound.genesis g, ?_⟩ ?_ as).2 hSmall
  · intro _ events hEvents
    cases hEvents
    exact ⟨fun _ => rfl, fun _ => rfl, fun _ => rfl, fun _ => rfl⟩
  · intro past w a h
    have hEffect := step_effect contract w a
    exact ⟨(h.1.effect hEffect).1, Books.effect h.1 h.2 hEffect⟩

end Runs

variable [DecidableEq Address]

/-- For every run whose events parse and are all delivered, in any order, and
whatever the backend adds: the rows of a wallet's history say that exactly what
the contract received from its address was paid in and exactly what the contract
sent there was paid out; the difference is what the contract holds for it. The
history of each vault adds up to its balance. The amounts of the rows are read
as the client submits them, and no transfer may be of more stroops than that
keeps apart. -/
theorem history_adds_up (key : StrKey Address) (remoteMetas : String → Option (List RemoteMeta))
    (g : Genesis contract) (as : List (Action contract)) {events : List ParsedEvent}
    (hEvents : parseEvents key (emitted (trace (step contract) g.world as)) = .ok events)
    (hSmall : Representable (receipts (trace (step contract) g.world as)))
    {all : List VaultTransaction} (hDelivered : (plain all).Perm events) :
    let past := receipts (trace (step contract) g.world as)
    let s := (final (step contract) g.world as).storage
    (∀ a, let rows := plain (allTransactions remoteMetas all (key.encode a))
      total credit rows = moved past a contract ∧ total debit rows = moved past contract a ∧
        total credit rows - total debit rows = s.savings a) ∧
    ∀ id, let rows := plain (vaultTransactions remoteMetas all (idText id))
      total credit rows - total debit rows = balanceOf s id := by
  intro past s
  have hBooks := Books.reachable key g as hSmall events hEvents
  constructor
  · intro a rows
    have hRows (figure : ParsedEvent → Int) (hFree : ∀ e : ParsedEvent, e.amount = 0 → figure e = 0) :
        total figure rows = total figure (eventsOf key a events) :=
      (total_allTransactions hFree (key.encode a)).trans (total_perm (hDelivered.filter _))
    rw [hRows credit credit_free, hRows debit debit_free]
    exact ⟨hBooks.inflow a, hBooks.outflow a, hBooks.savings a⟩
  · intro id rows
    have hRows (figure : ParsedEvent → Int) (hFree : ∀ e : ParsedEvent, e.amount = 0 → figure e = 0) :
        total figure rows = total figure (events.filter fun e => e.vaultId = idText id) :=
      (total_vaultTransactions hFree (idText id)).trans (total_perm (hDelivered.filter _))
    rw [hRows credit credit_free, hRows debit debit_free]
    exact hBooks.balance id

/-- The run with a top-up in the ledger of the creation, delivered backwards, and
a backend that knows of another vault. -/
theorem history_adds_up_noon :
    let rows := plain (allTransactions (fun _ => some [archivedMeta])
      [⟨noonTopUp 25 1767200000, "tx", some 1767200000000⟩,
        ⟨noonEvent, "tx", some 1767200000000⟩] (numbered.encode 7))
    total credit rows = 725 ∧ total debit rows = 0 ∧ total credit rows - total debit rows = 725 := by
  have hEvents : parseEvents numbered
      (emitted (trace (step (0 : Nat)) sampleGenesis.world toppedUpRun)) =
        .ok [noonEvent, noonTopUp 25 1767200000] := parse_noonTopUp 1767200000
  have hDelivered : (plain [⟨noonTopUp 25 1767200000, "tx", some 1767200000000⟩,
      ⟨noonEvent, "tx", some 1767200000000⟩]).Perm [noonEvent, noonTopUp 25 1767200000] :=
    List.Perm.swap _ _ _
  exact (history_adds_up numbered (fun _ => some [archivedMeta]) sampleGenesis toppedUpRun hEvents
    (by unfold Representable; decide) hDelivered).1 7

end SorobanClient
