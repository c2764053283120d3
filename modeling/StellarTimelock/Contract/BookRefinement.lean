import StellarTimelock.Contract.Independence
import StellarTimelock.Contract.LockBook
import StellarTimelock.Semantics.Refinement
import Mathlib.Data.List.Sort

/-! The contract is a lock book. The book has no counter, no index, no withdrawn
flag and no machine integers; of the machine it keeps only that its numbers must
fit and that the token must agree to the transfer that settles a deed. -/

namespace I128

/-- The integer as a 128-bit one, if it is in range. -/
def ofInt (n : Int) : Option I128 :=
  if h : -170141183460469231731687303715884105728 ≤ n ∧
      n < 170141183460469231731687303715884105728 then
    some ⟨n, by omega, by omega⟩
  else none

theorem ofInt_eq_some {n : Int} {x : I128} : ofInt n = some x ↔ x.val = n := by
  have hLower := x.lower
  have hUpper := x.upper
  unfold ofInt
  split_ifs with h
  · rw [Option.some.injEq, I128.ext_iff]
    exact eq_comm
  · simp only [false_iff]
    omega

end I128

namespace XlmVault

open Execution LockBook

variable {Address : Type} {contract : Address}

/-- A vault as a lock. -/
def Vault.lock (v : Vault Address) : Lock Address :=
  ⟨v.owner, v.name, v.createdTimestamp.toNat, v.unlockTimestamp.toNat, v.balance.val.toNat⟩

/-- A call on a vault as a deed. -/
def Call.deed : Call Address → Option (Deed Address)
  | .init _ => none
  | .createVault owner name initialDeposit unlockTimestamp =>
      some (.openLock owner name initialDeposit.val.toNat unlockTimestamp.toNat)
  | .deposit caller vaultId amount => some (.topUp caller vaultId.toNat amount.val.toNat)
  | .extendLock caller vaultId additionalSeconds =>
      some (.putOff caller vaultId.toNat additionalSeconds.toNat)
  | .withdraw caller vaultId => some (.payOut caller vaultId.toNat)

def Reply.answer : Reply → Answer
  | .unit => .done
  | .id vaultId => .opened vaultId.toNat
  | .unlock timestamp => .due timestamp.toNat
  | .amount sum => .paid sum.val.toNat

/-- The numbers of a book fit into the contract's types, the next place too. -/
def Fits (locks : List (Lock Address)) : Prop :=
  locks.length < 2 ^ 64 ∧ ∀ l ∈ locks, l.due < 2 ^ 64 ∧ l.amount < 2 ^ 127

instance (locks : List (Lock Address)) : Decidable (Fits locks) := by
  unfold Fits
  infer_instance

/-- The transfer that settles a flow of money with an owner. -/
def settlement (contract owner token : Address) (flow : Int) : Option (Transfer Address) :=
  if 0 < flow then (I128.ofInt flow).map fun amount => ⟨token, owner, contract, amount⟩
  else (I128.ofInt (-flow)).map fun amount => ⟨token, contract, owner, amount⟩

/-- The ideal contract: a token, a book, all balances and the time. -/
structure Ideal (Address : Type) where
  token : Option Address
  locks : List (Lock Address)
  ledger : Ledger Address Address
  now : Nat

def Ideal.opening {contract : Address} (g : Genesis contract) : Ideal Address :=
  ⟨none, [], g.ledger, g.now.toNat⟩

/-- What can be seen of a step: the answer to a call that was not refused and
its transfers, the time, or a transfer between others. -/
inductive Seen (contract : Address) where
  | refused
  | answered (answer : Answer) (transfers : List (Transfer Address))
  | advanced (time : Nat)
  | moved (t : OutsideTransfer contract)

def Observation.seen : Observation contract → Seen contract
  | .invoked ⟨_, _, .ok reply, transfers, _⟩ => .answered reply.answer transfers
  | .invoked ⟨_, _, .error _, _, _⟩ => .refused
  | .advanced timestamp => .advanced timestamp.toNat
  | .moved t => .moved t

section Step

variable [DecidableEq Address]

/-- A deed on the ideal contract, with its answer and its transfers. -/
def Ideal.carryOut (contract : Address) (client : TokenClient Address) (b : Ideal Address)
    (d : Deed Address) : Option (Ideal Address × Answer × List (Transfer Address)) :=
  ((d.carryOut b.now b.locks).filter fun entry => Fits entry.locks).bind fun entry =>
    if entry.flow = 0 then some ({ b with locks := entry.locks }, entry.answer, [])
    else
      (b.token.bind fun token =>
        (settlement contract d.owner token entry.flow).filter fun t =>
          client.accepts b.ledger t).map fun t =>
        ({ b with locks := entry.locks, ledger := t.perform b.ledger }, entry.answer, [t])

def Ideal.step (contract : Address) (b : Ideal Address) : Action contract → Ideal Address × Seen contract
  | .invoke _ _ (.init token) =>
      if b.token = none then ({ b with token := some token }, .answered .done [])
      else (b, .refused)
  | .invoke auth client call =>
      match ((call.deed.filter fun d => auth.grants d.owner).bind (b.carryOut contract client)) with
      | some (b', answer, transfers) => (b', .answered answer transfers)
      | none => (b, .refused)
  | .advance timestamp => ({ b with now := max b.now timestamp.toNat }, .advanced (max b.now timestamp.toNat))
  | .outside t =>
      ({ b with ledger := b.ledger.move t.token t.source t.destination t.amount }, .moved t)

end Step

/-- The ideal state a world stands for. -/
structure Represents (w : World Address) (b : Ideal Address) : Prop where
  sound : w.Sound
  token : w.storage.token = b.token
  ledger : w.ledger = b.ledger
  now : w.now.toNat = b.now
  locks : ∀ id, (w.storage.vault id).map Vault.lock = b.locks[id.toNat]?
  counter : ∀ token, b.token = some token → ∃ n, w.storage.nextId = some n ∧ n.toNat = b.locks.length
  unset : b.token = none → b.locks = []

/-- A positive flow is settled by a transfer from the owner to the contract. -/
theorem settlement_pull (contract owner token : Address) {amount : I128} (h : 0 < amount.val) :
    settlement contract owner token amount.val = some ⟨token, owner, contract, amount⟩ := by
  rw [settlement, if_pos h, I128.ofInt_eq_some.mpr rfl, Option.map_some]

/-- A negative flow is settled by a transfer from the contract to the owner, of
the amount without its sign. -/
theorem settlement_push (contract owner token : Address) {amount : I128} (h : 0 < amount.val) :
    settlement contract owner token (-amount.val) = some ⟨token, contract, owner, amount⟩ := by
  have hNotPos : ¬ 0 < -amount.val := by omega
  have hAmount : I128.ofInt (- -amount.val) = some amount := I128.ofInt_eq_some.mpr (Int.neg_neg _).symm
  rw [settlement, if_neg hNotPos, hAmount, Option.map_some]

namespace Represents

variable {w : World Address} {b : Ideal Address}

/-- Every lock of the book is a vault of the storage, under the id that is its
place in the book. -/
theorem vault_of_lock (h : Represents w b) {id : UInt64} {l : Lock Address}
    (hLock : b.locks[id.toNat]? = some l) : ∃ v, w.storage.vault id = some v ∧ v.lock = l := by
  rw [← h.locks, Option.map_eq_some_iff] at hLock
  exact hLock

/-- Every vault of the storage is a lock of the book, at the place that is its
id. -/
theorem lock_of_vault (h : Represents w b) {id : UInt64} {v : Vault Address}
    (hVault : w.storage.vault id = some v) : b.locks[id.toNat]? = some v.lock := by
  rw [← h.locks, hVault, Option.map_some]

/-- The book has less than 2^64 locks, so each place in it is an id. -/
theorem length_lt (h : Represents w b) : b.locks.length < 2 ^ 64 := by
  cases hToken : b.token with
  | none =>
      rw [h.unset hToken]
      simp
  | some token =>
      obtain ⟨n, _, hLength⟩ := h.counter token hToken
      rw [← hLength]
      exact n.toNat_lt

/-- Every place of the book is an id. -/
theorem toNat_index (h : Represents w b) {i : Nat} (hBound : i < b.locks.length) :
    (UInt64.ofNat i).toNat = i := by
  have hLength := h.length_lt
  exact UInt64.toNat_ofNat_of_lt' (by rw [UInt64.size]; omega)

/-- Whatever a lock stands for fits, since both of its numbers are taken from
machine integers. -/
theorem fits_lock (v : Vault Address) : v.lock.due < 2 ^ 64 ∧ v.lock.amount < 2 ^ 127 := by
  have hUpper := v.balance.upper
  refine ⟨v.unlockTimestamp.toNat_lt, ?_⟩
  show v.balance.val.toNat < 2 ^ 127
  omega

/-- Due dates and amounts of the represented book fit the machine integers of
the storage, as they are taken from there. -/
theorem fits (h : Represents w b) : ∀ l ∈ b.locks, l.due < 2 ^ 64 ∧ l.amount < 2 ^ 127 := by
  intro l hMem
  obtain ⟨i, hBound, hLock⟩ := List.mem_iff_getElem.mp hMem
  have hFound : b.locks[(UInt64.ofNat i).toNat]? = some l := by
    rw [h.toNat_index hBound, List.getElem?_eq_getElem hBound, hLock]
  obtain ⟨v, _, rfl⟩ := h.vault_of_lock hFound
  exact fits_lock v

variable [DecidableEq Address]

/-- The locks that can be used are the live vaults of their owners. -/
theorem held_iff (h : Represents w b) {a : Address} {id : UInt64} {l : Lock Address} :
    held b.locks a id.toNat = some l ↔
      ∃ v, w.storage.vault id = some v ∧ v.owner = a ∧ v.withdrawn = false ∧ v.lock = l := by
  rw [held_eq_some]
  constructor
  · rintro ⟨hLock, hOwner, hAmount⟩
    obtain ⟨v, hVault, rfl⟩ := h.vault_of_lock hLock
    refine ⟨v, hVault, hOwner, ?_, rfl⟩
    have hForm := h.sound.wellFormed id v hVault
    have hPositive : 0 < v.balance.val.toNat := hAmount
    cases hWithdrawn : v.withdrawn with
    | false => rfl
    | true =>
        have hZero := hForm.empty_iff_withdrawn.mpr hWithdrawn
        omega
  · rintro ⟨v, hVault, hOwner, hLive, rfl⟩
    have hPositive := (h.sound.wellFormed id v hVault).balance_pos hLive
    refine ⟨h.lock_of_vault hVault, hOwner, ?_⟩
    show 0 < v.balance.val.toNat
    omega

end Represents

variable [DecidableEq Address]

/-- The ideal contract carries out a deed if and only if the book allows it, the
new book fits the machine integers, and the token accepts the transfer that
settles the flow, where there is one. -/
theorem Ideal.carryOut_eq_some {client : TokenClient Address} {b : Ideal Address} {d : Deed Address}
    {r : Ideal Address × Answer × List (Transfer Address)} :
    b.carryOut contract client d = some r ↔
      ∃ entry, d.carryOut b.now b.locks = some entry ∧ Fits entry.locks ∧
        (entry.flow = 0 ∧ r = ({ b with locks := entry.locks }, entry.answer, []) ∨
          entry.flow ≠ 0 ∧ ∃ token t, b.token = some token ∧
            settlement contract d.owner token entry.flow = some t ∧
            client.accepts b.ledger t = true ∧
            r = ({ b with locks := entry.locks, ledger := t.perform b.ledger }, entry.answer, [t])) := by
  simp only [Ideal.carryOut, Option.bind_eq_some_iff, Option.filter_eq_some_iff, decide_eq_true_eq]
  constructor
  · rintro ⟨entry, ⟨hDeed, hFits⟩, hResult⟩
    refine ⟨entry, hDeed, hFits, ?_⟩
    split_ifs at hResult with hFlow
    · exact Or.inl ⟨hFlow, (Option.some.inj hResult).symm⟩
    · simp only [Option.map_eq_some_iff, Option.bind_eq_some_iff, Option.filter_eq_some_iff] at hResult
      obtain ⟨t, ⟨token, hToken, hSettled, hAccepts⟩, rfl⟩ := hResult
      exact Or.inr ⟨hFlow, token, t, hToken, hSettled, hAccepts, rfl⟩
  · rintro ⟨entry, hDeed, hFits, hResult⟩
    refine ⟨entry, ⟨hDeed, hFits⟩, ?_⟩
    rcases hResult with ⟨hFlow, rfl⟩ | ⟨hFlow, token, t, hToken, hSettled, hAccepts, rfl⟩
    · rw [if_pos hFlow]
    · rw [if_neg hFlow, hToken, Option.bind_some, hSettled, Option.filter_some, if_pos hAccepts,
        Option.map_some]

/-- The ideal state after the change a call makes. -/
def Ideal.perform (c : Change Address) (b : Ideal Address) : Ideal Address :=
  { b with
    locks :=
      if c.next.isSome then b.locks ++ [c.vault.lock] else b.locks.set c.id.toNat c.vault.lock
    ledger := c.transfer.elim b.ledger fun t => t.perform b.ledger }

omit [DecidableEq Address] in
/-- A book that fits still does when a lock is replaced by one that fits. -/
theorem Fits.set {locks : List (Lock Address)}
    (h : Fits locks) (i : Nat) {l : Lock Address} (hDue : l.due < 2 ^ 64)
    (hAmount : l.amount < 2 ^ 127) : Fits (locks.set i l) := by
  refine ⟨by simpa using h.1, ?_⟩
  intro k hMem
  rcases List.mem_or_eq_of_mem_set hMem with hOld | rfl
  · exact h.2 k hOld
  · exact ⟨hDue, hAmount⟩

omit [DecidableEq Address] in
/-- Conversely, what has replaced a lock in a book that fits is itself within
the bounds. -/
theorem Fits.of_mem_set {locks : List (Lock Address)} {i : Nat} {l : Lock Address}
    (hBound : i < locks.length) (h : Fits (locks.set i l)) : l.due < 2 ^ 64 ∧ l.amount < 2 ^ 127 :=
  h.2 l (List.mem_set hBound l)

section Performs

variable {w : World Address} {client : TokenClient Address} {call : Call Address}
  {c : Change Address}

omit [DecidableEq Address] in
/-- A call that uses up an id takes the next one. -/
theorem Performs.next_some (h : Performs contract client w call c) {next : UInt64}
    (hNext : c.next = some next) :
    c.id = w.storage.nextId.getD 0 ∧ c.id.checkedAdd 1 = some next := by
  cases call with
  | init token => exact h.elim
  | createVault owner name initialDeposit unlockTimestamp =>
      obtain ⟨_, _, _, _, _, next', hSucc, rfl⟩ := h
      cases hNext
      exact ⟨rfl, hSucc⟩
  | deposit => rw [h.next_none rfl] at hNext; cases hNext
  | extendLock => rw [h.next_none rfl] at hNext; cases hNext
  | withdraw => rw [h.next_none rfl] at hNext; cases hNext

omit [DecidableEq Address] in
/-- Without a token no call on a vault passes its checks. -/
theorem Performs.token (h : Performs contract client w call c) (hSound : w.Sound) :
    ∃ token, w.storage.token = some token := by
  cases call with
  | init token => exact h.elim
  | createVault owner name initialDeposit unlockTimestamp =>
      obtain ⟨_, _, token, hToken, _⟩ := h
      exact ⟨token, hToken⟩
  | deposit caller vaultId amount =>
      obtain ⟨_, v, hVault, _⟩ := h
      exact hSound.allocated.vault_token hVault
  | extendLock caller vaultId additionalSeconds =>
      obtain ⟨_, v, hVault, _⟩ := h
      exact hSound.allocated.vault_token hVault
  | withdraw caller vaultId =>
      obtain ⟨v, hVault, _⟩ := h
      exact hSound.allocated.vault_token hVault

end Performs

namespace Represents

variable {w : World Address} {b : Ideal Address} {client : TokenClient Address}

/-- The deed of a call that passes its checks is carried out, and it makes the
change of the call. -/
theorem carryOut (h : Represents w b) {call : Call Address} {a : Address}
    (hCaller : call.caller = some a) {c : Change Address}
    (hPerforms : Performs contract client w call c) :
    ∃ d, call.deed = some d ∧ d.owner = a ∧
      b.carryOut contract client d = some (b.perform c, c.reply.answer, c.transfer.toList) := by
  have hOld : Fits b.locks := ⟨h.length_lt, h.fits⟩
  cases call with
  | init token => cases hCaller
  | createVault owner name initialDeposit unlockTimestamp =>
      cases hCaller
      obtain ⟨hAmount, hTime, token, hToken, hAccepts, next, hNext, rfl⟩ := hPerforms
      obtain ⟨n, hCounter, hLength⟩ := h.counter token (h.token ▸ hToken)
      rw [hCounter, Option.getD_some] at hNext ⊢
      have hSucc := UInt64.checkedAdd_eq_some.mp hNext
      have hBound := next.toNat_lt
      have hOne : (1 : UInt64).toNat = 1 := rfl
      have hFlow : ((initialDeposit.val.toNat : Nat) : Int) = initialDeposit.val := by omega
      have hLater : b.now < unlockTimestamp.toNat := by
        rw [← h.now]
        exact UInt64.lt_iff_toNat_lt.mp hTime
      refine ⟨_, rfl, rfl, Ideal.carryOut_eq_some.mpr ⟨_, if_pos ⟨by omega, hLater⟩, ?_, Or.inr ⟨?_,
        token, _, h.token ▸ hToken, ?_, h.ledger ▸ hAccepts, ?_⟩⟩⟩
      · refine ⟨?_, ?_⟩
        · simp only [List.length_append, List.length_singleton]
          omega
        · intro l hMem
          rcases List.mem_append.mp hMem with hThere | hNew
          · exact hOld.2 l hThere
          · rw [List.mem_singleton.mp hNew]
            exact ⟨unlockTimestamp.toNat_lt, (fits_lock ⟨n, a, name, initialDeposit,
              unlockTimestamp, w.now, false⟩).2⟩
      · simp only
        omega
      · simp only [hFlow]
        exact settlement_pull contract a token hAmount
      · simp only [Ideal.perform, Vault.lock, Reply.answer, h.now, hLength, Option.isSome_some, if_true,
          Option.elim_some, Option.toList_some]
  | deposit caller vaultId amount =>
      cases hCaller
      obtain ⟨hAmount, v, hVault, hOwner, hLive, token, hToken, hAccepts, balance, hBalance, rfl⟩ :=
        hPerforms
      have hHeld := h.held_iff.mpr ⟨v, hVault, hOwner, hLive, rfl⟩
      have hSum := I128.checkedAdd_eq_some.mp hBalance
      have hPositive := (h.sound.wellFormed vaultId v hVault).balance_pos hLive
      have hFlow : ((amount.val.toNat : Nat) : Int) = amount.val := by omega
      have hTotal : v.balance.val.toNat + amount.val.toNat = balance.val.toNat := by omega
      have hDeed : (Deed.topUp a vaultId.toNat amount.val.toNat).carryOut b.now b.locks =
          some ⟨b.locks.set vaultId.toNat (Vault.lock { v with balance }), .done, amount.val⟩ := by
        simp only [Deed.carryOut, hHeld, Option.map_some, Vault.lock, hTotal, hFlow]
        exact if_pos (by omega)
      have hNew := fits_lock { v with balance }
      refine ⟨_, rfl, rfl, Ideal.carryOut_eq_some.mpr ⟨_, hDeed, hOld.set _ hNew.1 hNew.2, Or.inr ⟨?_,
        token, _, h.token ▸ hToken, settlement_pull contract a token hAmount,
        h.ledger ▸ hAccepts, rfl⟩⟩⟩
      simp only
      omega
  | extendLock caller vaultId additionalSeconds =>
      cases hCaller
      obtain ⟨hSeconds, v, hVault, hOwner, hLive, unlockTimestamp, hUnlock, rfl⟩ := hPerforms
      have hHeld := h.held_iff.mpr ⟨v, hVault, hOwner, hLive, rfl⟩
      have hSum := UInt64.checkedAdd_eq_some.mp hUnlock
      have hPositive : 0 < additionalSeconds.toNat := Nat.pos_of_ne_zero fun hZero => hSeconds (UInt64.toNat_inj.mp hZero)
      have hDeed : (Deed.putOff a vaultId.toNat additionalSeconds.toNat).carryOut b.now b.locks =
          some ⟨b.locks.set vaultId.toNat (Vault.lock { v with unlockTimestamp }),
            .due unlockTimestamp.toNat, 0⟩ := by
        simp only [Deed.carryOut, hHeld, Option.map_some, Vault.lock, hSum]
        exact if_pos hPositive
      have hNew := fits_lock { v with unlockTimestamp }
      exact ⟨_, rfl, rfl, Ideal.carryOut_eq_some.mpr ⟨_, hDeed, hOld.set _ hNew.1 hNew.2,
        Or.inl ⟨rfl, rfl⟩⟩⟩
  | withdraw caller vaultId =>
      cases hCaller
      obtain ⟨v, hVault, hOwner, hLive, hTime, token, hToken, hAccepts, rfl⟩ := hPerforms
      have hHeld := h.held_iff.mpr ⟨v, hVault, hOwner, hLive, rfl⟩
      have hPositive := (h.sound.wellFormed vaultId v hVault).balance_pos hLive
      have hFlow : ((v.balance.val.toNat : Nat) : Int) = v.balance.val := by omega
      have hDue : v.lock.due ≤ b.now := by
        rw [← h.now]
        exact UInt64.le_iff_toNat_le.mp hTime
      have hDeed : (Deed.payOut a vaultId.toNat).carryOut b.now b.locks =
          some ⟨b.locks.set vaultId.toNat (Vault.lock { v with balance := 0, withdrawn := true }),
            .paid v.balance.val.toNat, -v.balance.val⟩ := by
        simp only [Deed.carryOut, hHeld, Option.filter_some, hDue, decide_true, if_true, Option.map_some]
        simp only [Vault.lock, hFlow]
        rfl
      have hNew := fits_lock { v with balance := 0, withdrawn := true }
      refine ⟨_, rfl, rfl, Ideal.carryOut_eq_some.mpr ⟨_, hDeed, hOld.set _ hNew.1 hNew.2, Or.inr ⟨?_,
        token, _, h.token ▸ hToken, settlement_push contract a token hPositive,
        h.ledger ▸ hAccepts, rfl⟩⟩⟩
      simp only
      omega

/-- A call whose deed the book can carry out passes all the checks of the
contract. -/
theorem performs (h : Represents w b) {call : Call Address} {d : Deed Address}
    (hDeed : call.deed = some d) {r : Ideal Address × Answer × List (Transfer Address)}
    (hCarried : b.carryOut contract client d = some r) :
    ∃ c, Performs contract client w call c := by
  obtain ⟨entry, hEntry, hFits, hSettled⟩ := Ideal.carryOut_eq_some.mp hCarried
  cases call with
  | init token => cases hDeed
  | createVault owner name initialDeposit unlockTimestamp =>
      cases hDeed
      simp only [Deed.carryOut, Option.ite_none_right_eq_some, Option.some.injEq] at hEntry
      obtain ⟨⟨hAmount, hTime⟩, rfl⟩ := hEntry
      have hPositive : 0 < initialDeposit.val := by omega
      have hFlow : ((initialDeposit.val.toNat : Nat) : Int) = initialDeposit.val := by omega
      rcases hSettled with ⟨hZero, _⟩ | ⟨_, token, t, hToken, hTransfer, hAccepts, _⟩
      · simp only at hZero
        omega
      · simp only [hFlow, Deed.owner, settlement_pull contract owner token hPositive,
          Option.some.injEq] at hTransfer
        subst hTransfer
        obtain ⟨n, hCounter, hLength⟩ := h.counter token hToken
        have hRoom := hFits.1
        simp only [List.length_append, List.length_singleton, ← hLength] at hRoom
        have hNext : n.checkedAdd 1 = some (n + 1) := by
          rw [UInt64.checkedAdd, if_pos]
          exact hRoom
        refine ⟨_, hPositive, ?_, token, h.token.trans hToken, h.ledger ▸ hAccepts, n + 1, ?_, rfl⟩
        · rw [UInt64.lt_iff_toNat_lt, h.now]
          exact hTime
        · rw [hCounter]
          exact hNext
  | deposit caller vaultId amount =>
      cases hDeed
      simp only [Deed.carryOut, Option.ite_none_right_eq_some, Option.map_eq_some_iff] at hEntry
      obtain ⟨hAmount, l, hHeld, rfl⟩ := hEntry
      obtain ⟨v, hVault, hOwner, hLive, rfl⟩ := h.held_iff.mp hHeld
      have hPositive : 0 < amount.val := by omega
      have hFlow : ((amount.val.toNat : Nat) : Int) = amount.val := by omega
      have hBalance := (h.sound.wellFormed vaultId v hVault).balance_nonneg
      have hThere : vaultId.toNat < b.locks.length :=
        (List.getElem?_eq_some_iff.mp (h.lock_of_vault hVault)).1
      have hSum : v.balance.val.toNat + amount.val.toNat < 2 ^ 127 := (hFits.of_mem_set hThere).2
      have hAdd : v.balance.checkedAdd amount = some ⟨v.balance.val + amount.val, by omega, by omega⟩ :=
        I128.checkedAdd_eq_some.mpr rfl
      rcases hSettled with ⟨hZero, _⟩ | ⟨_, token, t, hToken, hTransfer, hAccepts, _⟩
      · simp only at hZero
        omega
      · simp only [hFlow, Deed.owner, settlement_pull contract caller token hPositive,
          Option.some.injEq] at hTransfer
        subst hTransfer
        exact ⟨_, hPositive, v, hVault, hOwner, hLive, token, h.token.trans hToken,
          h.ledger ▸ hAccepts, _, hAdd, rfl⟩
  | extendLock caller vaultId additionalSeconds =>
      cases hDeed
      simp only [Deed.carryOut, Option.ite_none_right_eq_some, Option.map_eq_some_iff] at hEntry
      obtain ⟨hSeconds, l, hHeld, rfl⟩ := hEntry
      obtain ⟨v, hVault, hOwner, hLive, rfl⟩ := h.held_iff.mp hHeld
      have hThere : vaultId.toNat < b.locks.length :=
        (List.getElem?_eq_some_iff.mp (h.lock_of_vault hVault)).1
      have hSum : v.unlockTimestamp.toNat + additionalSeconds.toNat < 2 ^ 64 :=
        (hFits.of_mem_set hThere).1
      have hAdd : v.unlockTimestamp.checkedAdd additionalSeconds =
          some (v.unlockTimestamp + additionalSeconds) := by
        rw [UInt64.checkedAdd, if_pos]
        exact hSum
      refine ⟨_, ?_, v, hVault, hOwner, hLive, _, hAdd, rfl⟩
      rintro rfl
      exact Nat.lt_irrefl 0 hSeconds
  | withdraw caller vaultId =>
      cases hDeed
      simp only [Deed.carryOut, Option.map_eq_some_iff, Option.filter_eq_some_iff,
        decide_eq_true_eq] at hEntry
      obtain ⟨l, ⟨hHeld, hDue⟩, rfl⟩ := hEntry
      obtain ⟨v, hVault, hOwner, hLive, rfl⟩ := h.held_iff.mp hHeld
      have hPositive := (h.sound.wellFormed vaultId v hVault).balance_pos hLive
      have hFlow : ((v.lock.amount : Nat) : Int) = v.balance.val := by
        show ((v.balance.val.toNat : Nat) : Int) = v.balance.val
        omega
      rcases hSettled with ⟨hZero, _⟩ | ⟨_, token, t, hToken, hTransfer, hAccepts, _⟩
      · simp only at hZero
        omega
      · simp only [hFlow, Deed.owner, settlement_push contract caller token hPositive,
          Option.some.injEq] at hTransfer
        subst hTransfer
        refine ⟨_, v, hVault, hOwner, hLive, ?_, token, h.token.trans hToken, h.ledger ▸ hAccepts,
          rfl⟩
        rw [UInt64.le_iff_toNat_le, h.now]
        exact hDue

omit [DecidableEq Address] in
/-- The place the book gives to an id that a call uses up. -/
theorem place (h : Represents w b) {call : Call Address} {c : Change Address}
    (hPerforms : Performs contract client w call c) {next : UInt64} (hNext : c.next = some next) :
    c.id.toNat = b.locks.length ∧ next.toNat = b.locks.length + 1 := by
  obtain ⟨token, hToken⟩ := hPerforms.token h.sound
  obtain ⟨n, hCounter, hLength⟩ := h.counter token (h.token ▸ hToken)
  obtain ⟨hId, hSucc⟩ := hPerforms.next_some hNext
  rw [hCounter, Option.getD_some] at hId
  rw [hId] at hSucc ⊢
  have hSum := UInt64.checkedAdd_eq_some.mp hSucc
  have hOne : (1 : UInt64).toNat = 1 := rfl
  omega

/-- A change of the contract and the same change of the book turn the same vault
into the same lock and leave the others alone. -/
theorem perform_locks (h : Represents w b) {call : Call Address} {a : Address}
    (hCaller : call.caller = some a) {c : Change Address}
    (hPerforms : Performs contract client w call c) (id : UInt64) :
    ((w.perform c).storage.vault id).map Vault.lock = (b.perform c).locks[id.toNat]? := by
  show (Function.update w.storage.vault c.id (some c.vault) id).map Vault.lock =
    (if c.next.isSome then b.locks ++ [c.vault.lock] else b.locks.set c.id.toNat c.vault.lock)[id.toNat]?
  cases hNext : c.next with
  | none =>
      obtain ⟨v, hVault, _⟩ := (hPerforms.own h.sound hCaller).stored hNext
      have hThere := (List.getElem?_eq_some_iff.mp (h.lock_of_vault hVault)).1
      simp only [Option.isSome_none, Bool.false_eq_true, if_false, List.getElem?_set]
      by_cases hId : id = c.id
      · subst hId
        rw [Function.update_self, Option.map_some, if_pos rfl, if_pos hThere]
      · have hIndex : c.id.toNat ≠ id.toNat := fun hSame => hId (UInt64.toNat_inj.mp hSame.symm)
        rw [Function.update_of_ne hId, if_neg hIndex]
        exact h.locks id
  | some next =>
      have hPlace := (h.place hPerforms hNext).1
      simp only [Option.isSome_some, if_true]
      by_cases hId : id = c.id
      · subst hId
        rw [Function.update_self, Option.map_some, hPlace, List.getElem?_concat_length]
      · have hIndex : id.toNat ≠ b.locks.length := by
          rw [← hPlace]
          exact fun hSame => hId (UInt64.toNat_inj.mp hSame)
        rw [Function.update_of_ne hId, h.locks id]
        rcases Nat.lt_or_gt_of_ne hIndex with hLess | hMore
        · rw [List.getElem?_append_left hLess]
        · rw [List.getElem?_eq_none (by omega), List.getElem?_eq_none]
          rw [List.length_append, List.length_singleton]
          omega

/-- The change of a call leaves a world that the changed book stands for. -/
theorem perform (h : Represents w b) {call : Call Address} {a : Address}
    (hCaller : call.caller = some a) {c : Change Address}
    (hPerforms : Performs contract client w call c) (hSound : (w.perform c).Sound) :
    Represents (w.perform c) (b.perform c) where
  sound := hSound
  token := h.token
  ledger := by
    show c.transfer.elim w.ledger _ = c.transfer.elim b.ledger _
    rw [h.ledger]
  now := h.now
  locks := h.perform_locks hCaller hPerforms
  counter token hToken := by
    obtain ⟨n, hCounter, hLength⟩ := h.counter token hToken
    cases hNext : c.next with
    | none =>
        refine ⟨n, ?_, ?_⟩
        · show c.next.or w.storage.nextId = some n
          rw [hNext]
          exact hCounter
        · simp only [Ideal.perform, hNext, Option.isSome_none, Bool.false_eq_true, if_false,
            List.length_set]
          exact hLength
    | some next =>
        refine ⟨next, ?_, ?_⟩
        · show c.next.or w.storage.nextId = some next
          rw [hNext]
          rfl
        · simp only [Ideal.perform, hNext, Option.isSome_some, if_true, List.length_append,
            List.length_singleton]
          exact (h.place hPerforms hNext).2
  unset hUnset := by
    obtain ⟨token, hToken⟩ := hPerforms.token h.sound
    have hNone : b.token = none := hUnset
    rw [h.token, hNone] at hToken
    cases hToken

end Represents

section Invoke

variable {w : World Address} {auth : Authorisation contract} {client : TokenClient Address}
  {call : Call Address} {a : Address}

/-- A call that succeeds was authorised by its caller, since every entry point
but `init` begins with `require_auth`. -/
theorem granted_of_run (hCaller : call.caller = some a) {reply : Reply} {h : Host Address}
    (hRun : EStateM.run (dispatch ⟨contract, w.now, auth.grants, client⟩ call) w.host = .ok reply h) :
    auth.grants a = true := by
  cases call with
  | init token => cases hCaller
  | createVault owner name initialDeposit unlockTimestamp =>
      cases hCaller
      simp only [dispatch, Transaction.run_bind_ok, createVault_ok] at hRun
      obtain ⟨_, _, ⟨hAuth, _⟩, _⟩ := hRun
      exact hAuth
  | deposit caller vaultId amount =>
      cases hCaller
      simp only [dispatch, Transaction.run_bind_ok, deposit_ok] at hRun
      obtain ⟨_, _, ⟨hAuth, _⟩, _⟩ := hRun
      exact hAuth
  | extendLock caller vaultId additionalSeconds =>
      cases hCaller
      simp only [dispatch, Transaction.run_bind_ok, extendLock_ok] at hRun
      obtain ⟨_, _, ⟨hAuth, _⟩, _⟩ := hRun
      exact hAuth
  | withdraw caller vaultId =>
      cases hCaller
      simp only [dispatch, Transaction.run_bind_ok, withdraw_ok] at hRun
      obtain ⟨_, _, ⟨hAuth, _⟩, _⟩ := hRun
      exact hAuth

/-- What a call that passes its checks is observed to transfer. -/
theorem transfers_of_step (hCaller : call.caller = some a) {c : Change Address}
    (hPerforms : Performs contract client w call c) {w' : World Address} {r : Receipt Address}
    (hEffect : Effect contract w w' (.invoked r)) (hCall : r.call = call)
    (hResult : r.result = .ok c.reply) : r.transfers = c.transfer.toList := by
  cases hEffect with
  | failed => cases hResult
  | initialised token => subst hCall; cases hCaller
  | created token owner name d u id next hOwner hAmount hTime hToken =>
      subst hCall
      obtain ⟨_, _, token', hToken', _, _, _, rfl⟩ := hPerforms
      rw [hToken] at hToken'
      cases hToken'
      rfl
  | deposited token caller vaultId amount balance v hCaller hAmount hVault hOwner hLive hToken =>
      subst hCall
      obtain ⟨_, _, _, _, _, token', hToken', _, _, _, rfl⟩ := hPerforms
      rw [hToken] at hToken'
      cases hToken'
      rfl
  | extended =>
      subst hCall
      obtain ⟨_, _, _, _, _, _, _, rfl⟩ := hPerforms
      rfl
  | withdrawn token caller vaultId v hCaller hVault hOwner hLive hTime hToken =>
      subst hCall
      obtain ⟨v', hVault', _, _, _, token', hToken', _, rfl⟩ := hPerforms
      rw [hToken] at hToken'
      rw [hVault] at hVault'
      cases hToken'
      cases hVault'
      rfl

/-- A call on a vault makes its change exactly if it is authorised and passes
its checks; otherwise it is refused. -/
theorem step_call (w : World Address) (auth : Authorisation contract) (client : TokenClient Address)
    (hCaller : call.caller = some a) :
    (auth.grants a = true ∧ ∃ c, Performs contract client w call c ∧
      (step contract w (.invoke auth client call)).1 = w.perform c ∧
      (step contract w (.invoke auth client call)).2.seen =
        .answered c.reply.answer c.transfer.toList) ∨
    (¬ (auth.grants a = true ∧ ∃ c, Performs contract client w call c) ∧
      (step contract w (.invoke auth client call)).1 = w ∧
      (step contract w (.invoke auth client call)).2.seen = .refused) := by
  cases hRun : EStateM.run (dispatch ⟨contract, w.now, auth.grants, client⟩ call) w.host with
  | ok reply h =>
      obtain ⟨c, hPerforms, hReply, _⟩ := performs_of_run hCaller hRun
      obtain ⟨hWorld, hResult⟩ := step_performs hCaller (granted_of_run hCaller hRun) hPerforms
      refine Or.inl ⟨granted_of_run hCaller hRun, c, hPerforms, hWorld, ?_⟩
      have hEffect := step_effect contract w (.invoke auth client call)
      have hTransfers := transfers_of_step hCaller hPerforms hEffect rfl
        (Option.some.inj hResult)
      simp only [step, Observation.result, Option.some.injEq] at hResult hTransfers ⊢
      rw [hResult, hTransfers]
      rfl
  | error failure h =>
      have hRolledBack := Transaction.atomically_error hRun
      refine Or.inr ⟨?_, ?_, ?_⟩
      · rintro ⟨hAuth, c, hPerforms⟩
        obtain ⟨_, hOk, _⟩ := run_of_performs hCaller hAuth hPerforms
        rw [hRun] at hOk
        cases hOk
      · simp only [step, hRolledBack]
        rfl
      · simp only [step, hRolledBack]
        rfl

end Invoke

/-- `init` sets the token of a contract that has none. On a contract that has
one it is answered by an error and changes nothing. -/
theorem step_init (w : World Address) (auth : Authorisation contract) (client : TokenClient Address)
    (token : Address) :
    w.storage.token = none ∧
        (step contract w (.invoke auth client (.init token))).1 = w.initialise token ∧
        (step contract w (.invoke auth client (.init token))).2.seen = .answered .done [] ∨
      w.storage.token ≠ none ∧ (step contract w (.invoke auth client (.init token))).1 = w ∧
        (step contract w (.invoke auth client (.init token))).2.seen = .refused := by
  cases hToken : w.storage.token with
  | none =>
      have hRun : EStateM.run (dispatch ⟨contract, w.now, auth.grants, client⟩ (.init token)) w.host =
          .ok .unit ((w.host.setToken token).setNextId 0) := by
        simp only [dispatch, EStateM.run_bind, init_run hToken]
        rfl
      have hKept := Transaction.atomically_ok.mpr hRun
      refine Or.inl ⟨rfl, ?_, ?_⟩ <;> simp only [step, hKept] <;> rfl
  | some configured =>
      have hRun : EStateM.run (dispatch ⟨contract, w.now, auth.grants, client⟩ (.init token)) w.host =
          .error (.error .alreadyInitialised) w.host := by
        have hSome : w.host.storage.token.isSome = true := by
          show w.storage.token.isSome = true
          rw [hToken]
          rfl
        simp only [dispatch, init, EStateM.run_bind, EStateM.run_get, Transaction.refuseIf, hSome,
          if_true]
        rfl
      have hRolledBack := Transaction.atomically_error hRun
      refine Or.inr ⟨by simp, ?_, ?_⟩ <;> simp only [step, hRolledBack] <;> rfl

omit [DecidableEq Address] in
/-- A call on a vault names its caller, and its deed is the caller's. -/
theorem Call.deed_owner {call : Call Address} {a : Address} (hCaller : call.caller = some a) :
    ∃ d, call.deed = some d ∧ d.owner = a := by
  cases call with
  | init token => cases hCaller
  | createVault => cases hCaller; exact ⟨_, rfl, rfl⟩
  | deposit => cases hCaller; exact ⟨_, rfl, rfl⟩
  | extendLock => cases hCaller; exact ⟨_, rfl, rfl⟩
  | withdraw => cases hCaller; exact ⟨_, rfl, rfl⟩

/-- An authorised deed that the ideal contract can carry out is answered with
its transfers and leaves the new book. -/
theorem Ideal.step_carried {b b' : Ideal Address} {auth : Authorisation contract}
    {client : TokenClient Address} {call : Call Address} {d : Deed Address} {answer : Answer}
    {transfers : List (Transfer Address)} (hDeed : call.deed = some d)
    (hAuth : auth.grants d.owner = true)
    (hCarried : b.carryOut contract client d = some (b', answer, transfers)) :
    Ideal.step contract b (.invoke auth client call) = (b', .answered answer transfers) := by
  cases call with
  | init token => cases hDeed
  | _ => simp only [Ideal.step, hDeed, Option.filter_some, hAuth, if_true, Option.bind_some, hCarried]

/-- A deed that is not authorised, or that cannot be carried out, is refused and
leaves the book as it was. -/
theorem Ideal.step_refused {b : Ideal Address} {auth : Authorisation contract}
    {client : TokenClient Address} {call : Call Address} {d : Deed Address} (hDeed : call.deed = some d)
    (hRefused : auth.grants d.owner = true → b.carryOut contract client d = none) :
    Ideal.step contract b (.invoke auth client call) = (b, .refused) := by
  have hNone : (call.deed.filter fun d => auth.grants d.owner).bind (b.carryOut contract client) = none := by
    rw [hDeed, Option.filter_some]
    split_ifs with hAuth
    · exact hRefused hAuth
    · rfl
  cases call with
  | init token => cases hDeed
  | _ => simp only [Ideal.step, hNone]

/-- A step from a world does what the step from its ideal state does. -/
theorem Represents.step {w : World Address} {b : Ideal Address} (h : Represents w b)
    (act : Action contract) :
    Represents (XlmVault.step contract w act).1 (Ideal.step contract b act).1 ∧
      (XlmVault.step contract w act).2.seen = (Ideal.step contract b act).2 := by
  have hSound : (XlmVault.step contract w act).1.Sound := h.sound.step act
  cases act with
  | invoke auth client call =>
      cases hCaller : call.caller with
      | none =>
          cases call with
          | init token =>
              simp only [Ideal.step, ← h.token]
              rcases step_init w auth client token with
                ⟨hUnset, hWorld, hSeen⟩ | ⟨hSet, hWorld, hSeen⟩
              · rw [hWorld] at hSound
                rw [if_pos hUnset, hWorld, hSeen]
                have hEmpty := h.unset (h.token ▸ hUnset)
                refine ⟨⟨hSound, rfl, h.ledger, h.now, h.locks, ?_, ?_⟩, rfl⟩
                · intro _ _
                  exact ⟨0, rfl, by rw [hEmpty]; rfl⟩
                · intro hNone
                  cases hNone
              · rw [if_neg hSet, hWorld, hSeen]
                exact ⟨h, rfl⟩
          | createVault => cases hCaller
          | deposit => cases hCaller
          | extendLock => cases hCaller
          | withdraw => cases hCaller
      | some a =>
          obtain ⟨d, hDeed, hOwner⟩ := Call.deed_owner hCaller
          rcases step_call w auth client hCaller with
            ⟨hAuth, c, hPerforms, hWorld, hSeen⟩ | ⟨hNot, hWorld, hSeen⟩
          · obtain ⟨d', hDeed', _, hCarried⟩ := h.carryOut hCaller hPerforms
            rw [hDeed] at hDeed'
            cases hDeed'
            rw [hWorld] at hSound
            rw [Ideal.step_carried hDeed (hOwner ▸ hAuth) hCarried, hWorld, hSeen]
            exact ⟨h.perform hCaller hPerforms hSound, rfl⟩
          · have hNone : auth.grants d.owner = true → b.carryOut contract client d = none := by
              intro hAuth
              rw [Option.eq_none_iff_forall_ne_some]
              intro r hCarried
              exact hNot ⟨hOwner ▸ hAuth, h.performs hDeed hCarried⟩
            rw [Ideal.step_refused hDeed hNone, hWorld, hSeen]
            exact ⟨h, rfl⟩
  | advance timestamp =>
      have hLater : (if w.now ≤ timestamp then timestamp else w.now).toNat =
          max b.now timestamp.toNat := by
        rw [← h.now]
        split_ifs with hOrder
        · exact (Nat.max_eq_right (UInt64.le_iff_toNat_le.mp hOrder)).symm
        · exact (Nat.max_eq_left (Nat.le_of_not_le fun hLe => hOrder (UInt64.le_iff_toNat_le.mpr hLe))).symm
      refine ⟨⟨hSound, h.token, h.ledger, hLater, h.locks, h.counter, h.unset⟩, ?_⟩
      exact congrArg Seen.advanced hLater
  | outside t =>
      refine ⟨⟨hSound, h.token, ?_, h.now, h.locks, h.counter, h.unset⟩, rfl⟩
      show w.ledger.move _ _ _ _ = b.ledger.move _ _ _ _
      rw [h.ledger]

/-- Step by step the contract does what the lock book does, and gives the same
answers, refusals and transfers to be seen. -/
theorem step_refines_book :
    Simulation (step contract) (Ideal.step contract) Represents Observation.seen where
  next _ _ act h := (h.step act).1
  observed _ _ act h := (h.step act).2

omit [DecidableEq Address] in
/-- The empty book represents the storage of a contract that has just been
deployed. -/
theorem Represents.opening (g : Genesis contract) : Represents g.world (Ideal.opening g) where
  sound := World.Sound.genesis g
  token := rfl
  ledger := rfl
  now := rfl
  locks _ := rfl
  counter _ hToken := by cases hToken
  unset _ := rfl

/-- An owner's index lists the places of the owner's locks. -/
theorem Represents.listOwned {w : World Address} {b : Ideal Address} (h : Represents w b)
    (a : Address) : (w.storage.listOwned a).map UInt64.toNat = owned b.locks a := by
  have hOwned : (owned b.locks a).Pairwise (· < ·) := List.pairwise_lt_range.filter _
  have hListed : ((w.storage.listOwned a).map UInt64.toNat).Pairwise (· < ·) := by
    rw [List.pairwise_map]
    exact (h.sound.allocated.increasing a).imp UInt64.lt_iff_toNat_lt.mp
  refine List.Pairwise.eq_of_mem_iff hListed hOwned ?_
  intro i
  simp only [List.mem_map, owned, List.mem_filter, List.mem_range, decide_eq_true_eq,
    Option.map_eq_some_iff]
  constructor
  · rintro ⟨id, hMem, rfl⟩
    obtain ⟨v, hVault, rfl⟩ := (h.sound.allocated.indexed a id).mp hMem
    have hLock := h.lock_of_vault hVault
    exact ⟨(List.getElem?_eq_some_iff.mp hLock).1, v.lock, hLock, rfl⟩
  · rintro ⟨hBound, l, hLock, rfl⟩
    rw [← h.toNat_index hBound] at hLock
    obtain ⟨v, hVault, rfl⟩ := h.vault_of_lock hLock
    exact ⟨UInt64.ofNat i, (h.sound.allocated.indexed _ _).mpr ⟨v, hVault, rfl⟩,
      h.toNat_index hBound⟩

/-- From the start of the contract every run is a run of the lock book: the same
calls are answered alike, refused alike and settled by the same transfers, and
what is stored, listed and held afterwards is what the book says. -/
theorem contract_refines_book (g : Genesis contract) (as : List (Action contract)) :
    let w := final (step contract) g.world as
    let b := final (Ideal.step contract) (Ideal.opening g) as
    (trace (step contract) g.world as).map Observation.seen =
        trace (Ideal.step contract) (Ideal.opening g) as ∧
      w.storage.token = b.token ∧ w.ledger = b.ledger ∧ w.now.toNat = b.now ∧
      (∀ id, (w.storage.vault id).map Vault.lock = b.locks[id.toNat]?) ∧
      ∀ a, (w.storage.listOwned a).map UInt64.toNat = owned b.locks a := by
  intro w b
  have hFinal : Represents w b := step_refines_book.final (Represents.opening g) as
  exact ⟨step_refines_book.trace (Represents.opening g) as, hFinal.token, hFinal.ledger, hFinal.now,
    hFinal.locks, hFinal.listOwned⟩

end XlmVault
