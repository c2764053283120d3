import StellarTimelock.Contract.Solvency

/-! Calls of two users at the same ledger time can be exchanged. A call reads
what belongs to its caller and writes one vault of its caller; the contract's
token account is shared, and solvency keeps each from being short of the
other's money. -/
namespace XlmVault

open Execution Transaction

variable {Address : Type} {contract : Address}

/-- The address that must authorise a call on a vault. -/
def Call.caller : Call Address → Option Address
  | .init _ => none
  | .createVault owner _ _ _ => some owner
  | .deposit caller _ _ => some caller
  | .extendLock caller _ _ => some caller
  | .withdraw caller _ => some caller

def Call.creates : Call Address → Bool
  | .createVault _ _ _ _ => true
  | _ => false

/-- What a successful call on a vault returns and leaves: the vault under its
id, the next id if one was used up, and a transfer. -/
structure Change (Address : Type) where
  reply : Reply
  id : UInt64
  vault : Vault Address
  next : Option UInt64
  transfer : Option (Transfer Address)

/-- The checks an authorised call passes, with the change it then makes. -/
def Performs (contract : Address) (client : TokenClient Address) (w : World Address)
    (call : Call Address) (c : Change Address) : Prop :=
  match call with
  | .init _ => False
  | .createVault owner name initialDeposit unlockTimestamp =>
      0 < initialDeposit.val ∧ w.now < unlockTimestamp ∧ ∃ token, w.storage.token = some token ∧
        client.accepts w.ledger ⟨token, owner, contract, initialDeposit⟩ = true ∧
        ∃ next, (w.storage.nextId.getD 0).checkedAdd 1 = some next ∧
          c = ⟨.id (w.storage.nextId.getD 0), w.storage.nextId.getD 0,
            ⟨w.storage.nextId.getD 0, owner, name, initialDeposit, unlockTimestamp, w.now, false⟩,
            some next, some ⟨token, owner, contract, initialDeposit⟩⟩
  | .deposit caller vaultId amount =>
      0 < amount.val ∧ ∃ v, w.storage.vault vaultId = some v ∧ v.owner = caller ∧
        v.withdrawn = false ∧ ∃ token, w.storage.token = some token ∧
        client.accepts w.ledger ⟨token, caller, contract, amount⟩ = true ∧
        ∃ balance, v.balance.checkedAdd amount = some balance ∧
          c = ⟨.unit, vaultId, { v with balance }, none, some ⟨token, caller, contract, amount⟩⟩
  | .extendLock caller vaultId additionalSeconds =>
      additionalSeconds ≠ 0 ∧ ∃ v, w.storage.vault vaultId = some v ∧ v.owner = caller ∧
        v.withdrawn = false ∧ ∃ unlockTimestamp,
        v.unlockTimestamp.checkedAdd additionalSeconds = some unlockTimestamp ∧
          c = ⟨.unlock unlockTimestamp, vaultId, { v with unlockTimestamp }, none, none⟩
  | .withdraw caller vaultId =>
      ∃ v, w.storage.vault vaultId = some v ∧ v.owner = caller ∧ v.withdrawn = false ∧
        v.unlockTimestamp ≤ w.now ∧ ∃ token, w.storage.token = some token ∧
        client.accepts w.ledger ⟨token, contract, caller, v.balance⟩ = true ∧
          c = ⟨.amount v.balance, vaultId, { v with balance := 0, withdrawn := true }, none,
            some ⟨token, contract, caller, v.balance⟩⟩

/-- Two worlds between which a call of this user cannot tell, unless it
creates a vault. -/
structure AgreeFor (contract : Address) (client : TokenClient Address) (a : Address)
    (w w' : World Address) : Prop where
  now : w'.now = w.now
  token : w'.storage.token = w.storage.token
  vault : ∀ id v, v.owner = a → (w'.storage.vault id = some v ↔ w.storage.vault id = some v)
  pull : ∀ token amount, w.storage.token = some token → 0 < amount.val →
    client.accepts w'.ledger ⟨token, a, contract, amount⟩ =
      client.accepts w.ledger ⟨token, a, contract, amount⟩
  push : ∀ token id v, w.storage.token = some token → w.storage.vault id = some v → v.owner = a →
    client.accepts w'.ledger ⟨token, contract, a, v.balance⟩ =
      client.accepts w.ledger ⟨token, contract, a, v.balance⟩

theorem AgreeFor.symm {client : TokenClient Address} {a : Address} {w w' : World Address}
    (h : AgreeFor contract client a w w') : AgreeFor contract client a w' w where
  now := h.now.symm
  token := h.token.symm
  vault id v hOwner := (h.vault id v hOwner).symm
  pull token amount hToken hAmount := (h.pull token amount (h.token ▸ hToken) hAmount).symm
  push token id v hToken hVault hOwner :=
    (h.push token id v (h.token ▸ hToken) ((h.vault id v hOwner).mp hVault) hOwner).symm

theorem Performs.transport {client : TokenClient Address} {a : Address} {w w' : World Address}
    {call : Call Address} {c : Change Address} (hCaller : call.caller = some a)
    (hNext : call.creates = true → w'.storage.nextId = w.storage.nextId)
    (hAgree : AgreeFor contract client a w w') (h : Performs contract client w call c) :
    Performs contract client w' call c := by
  cases call with
  | init token => cases hCaller
  | createVault owner name initialDeposit unlockTimestamp =>
      cases hCaller
      obtain ⟨hAmount, hTime, token, hToken, hAccepts, next, hSucc, rfl⟩ := h
      have hId := hNext rfl
      refine ⟨hAmount, hAgree.now ▸ hTime, token, hAgree.token ▸ hToken, ?_, next, hId ▸ hSucc, ?_⟩
      · rw [hAgree.pull token initialDeposit hToken hAmount]
        exact hAccepts
      · rw [hId, hAgree.now]
  | deposit caller vaultId amount =>
      cases hCaller
      obtain ⟨hAmount, v, hVault, hOwner, hLive, token, hToken, hAccepts, balance, hBalance, rfl⟩ := h
      refine ⟨hAmount, v, (hAgree.vault vaultId v hOwner).mpr hVault, hOwner, hLive, token,
        hAgree.token ▸ hToken, ?_, balance, hBalance, rfl⟩
      rw [hAgree.pull token amount hToken hAmount]
      exact hAccepts
  | extendLock caller vaultId additionalSeconds =>
      cases hCaller
      obtain ⟨hSeconds, v, hVault, hOwner, hRest⟩ := h
      exact ⟨hSeconds, v, (hAgree.vault vaultId v hOwner).mpr hVault, hOwner, hRest⟩
  | withdraw caller vaultId =>
      cases hCaller
      obtain ⟨v, hVault, hOwner, hLive, hTime, token, hToken, hAccepts, rfl⟩ := h
      refine ⟨v, (hAgree.vault vaultId v hOwner).mpr hVault, hOwner, hLive, hAgree.now ▸ hTime, token,
        hAgree.token ▸ hToken, ?_, rfl⟩
      rw [hAgree.push token vaultId v hToken hVault hOwner]
      exact hAccepts

variable [DecidableEq Address]

def Transfer.perform (t : Transfer Address) (l : Ledger Address Address) : Ledger Address Address :=
  l.move t.token t.source t.destination t.amount.val

/-- The world after a change. A vault with a new id is also indexed. -/
def World.perform (c : Change Address) (w : World Address) : World Address :=
  { storage :=
      { token := w.storage.token
        nextId := c.next.or w.storage.nextId
        vault := Function.update w.storage.vault c.id (some c.vault)
        owned :=
          if c.next.isSome then
            Function.update w.storage.owned c.vault.owner
              (some ((w.storage.owned c.vault.owner).getD [] ++ [c.id]))
          else w.storage.owned }
    ledger := c.transfer.elim w.ledger fun t => t.perform w.ledger
    now := w.now }

/-! An authorised call performs its change or none. -/

section Invoke

variable {w : World Address} {auth : Authorisation contract} {client : TokenClient Address}
  {call : Call Address} {a : Address}

theorem performs_of_run (hCaller : call.caller = some a) {reply : Reply} {h : Host Address}
    (hRun : EStateM.run (dispatch ⟨contract, w.now, auth.grants, client⟩ call) w.host = .ok reply h) :
    ∃ c, Performs contract client w call c ∧ c.reply = reply ∧
      h.storage = (w.perform c).storage ∧ h.ledger = (w.perform c).ledger := by
  cases call with
  | init token => cases hCaller
  | createVault owner name initialDeposit unlockTimestamp =>
      simp only [dispatch, run_bind_ok, run_pure_ok, createVault_ok] at hRun
      obtain ⟨id, _, ⟨_, hAmount, hTime, token, hToken, hAccepts, next, hNext, rfl, rfl⟩, rfl, rfl⟩ :=
        hRun
      exact ⟨_, ⟨hAmount, hTime, token, hToken, hAccepts, next, hNext, rfl⟩, rfl, rfl, rfl⟩
  | deposit caller vaultId amount =>
      simp only [dispatch, run_bind_ok, run_pure_ok, deposit_ok] at hRun
      obtain ⟨_, _, ⟨_, hAmount, v, hVault, hOwner, hLive, token, hToken, hAccepts, balance, hBalance,
        rfl⟩, rfl, rfl⟩ := hRun
      exact ⟨_, ⟨hAmount, v, hVault, hOwner, hLive, token, hToken, hAccepts, balance, hBalance, rfl⟩,
        rfl, rfl, rfl⟩
  | extendLock caller vaultId additionalSeconds =>
      simp only [dispatch, run_bind_ok, run_pure_ok, extendLock_ok] at hRun
      obtain ⟨u, _, ⟨_, hSeconds, v, hVault, hOwner, hLive, hUnlock, rfl⟩, rfl, rfl⟩ := hRun
      exact ⟨_, ⟨hSeconds, v, hVault, hOwner, hLive, u, hUnlock, rfl⟩, rfl, rfl, rfl⟩
  | withdraw caller vaultId =>
      simp only [dispatch, run_bind_ok, run_pure_ok, withdraw_ok] at hRun
      obtain ⟨_, _, ⟨_, v, hVault, hOwner, hLive, hTime, token, hToken, hAccepts, rfl, rfl⟩, rfl,
        rfl⟩ := hRun
      exact ⟨_, ⟨v, hVault, hOwner, hLive, hTime, token, hToken, hAccepts, rfl⟩, rfl, rfl, rfl⟩

theorem run_of_performs (hCaller : call.caller = some a) (hAuth : auth.grants a = true)
    {c : Change Address} (hPerforms : Performs contract client w call c) :
    ∃ h, EStateM.run (dispatch ⟨contract, w.now, auth.grants, client⟩ call) w.host =
        .ok c.reply h ∧
      h.storage = (w.perform c).storage ∧ h.ledger = (w.perform c).ledger := by
  cases call with
  | init token => cases hCaller
  | createVault owner name initialDeposit unlockTimestamp =>
      cases hCaller
      obtain ⟨hAmount, hTime, token, hToken, hAccepts, next, hNext, rfl⟩ := hPerforms
      simp only [dispatch, run_bind_ok, run_pure_ok, createVault_ok]
      exact ⟨_, ⟨_, _, ⟨hAuth, hAmount, hTime, token, hToken, hAccepts, next, hNext, rfl, rfl⟩, rfl,
        rfl⟩, rfl, rfl⟩
  | deposit caller vaultId amount =>
      cases hCaller
      obtain ⟨hAmount, v, hVault, hOwner, hLive, token, hToken, hAccepts, balance, hBalance, rfl⟩ :=
        hPerforms
      simp only [dispatch, run_bind_ok, run_pure_ok, deposit_ok]
      exact ⟨_, ⟨⟨⟩, _, ⟨hAuth, hAmount, v, hVault, hOwner, hLive, token, hToken, hAccepts, balance,
        hBalance, rfl⟩, trivial, rfl⟩, rfl, rfl⟩
  | extendLock caller vaultId additionalSeconds =>
      cases hCaller
      obtain ⟨hSeconds, v, hVault, hOwner, hLive, u, hUnlock, rfl⟩ := hPerforms
      simp only [dispatch, run_bind_ok, run_pure_ok, extendLock_ok]
      exact ⟨_, ⟨u, _, ⟨hAuth, hSeconds, v, hVault, hOwner, hLive, hUnlock, rfl⟩, rfl, rfl⟩, rfl, rfl⟩
  | withdraw caller vaultId =>
      cases hCaller
      obtain ⟨v, hVault, hOwner, hLive, hTime, token, hToken, hAccepts, rfl⟩ := hPerforms
      simp only [dispatch, run_bind_ok, run_pure_ok, withdraw_ok]
      exact ⟨_, ⟨_, _, ⟨hAuth, v, hVault, hOwner, hLive, hTime, token, hToken, hAccepts, rfl, rfl⟩,
        rfl, rfl⟩, rfl, rfl⟩

/-- A call that passes its checks returns the reply of its change and leaves
the changed world. -/
theorem step_performs (hCaller : call.caller = some a) (hAuth : auth.grants a = true)
    {c : Change Address} (hPerforms : Performs contract client w call c) :
    (step contract w (.invoke auth client call)).1 = w.perform c ∧
      (step contract w (.invoke auth client call)).2.result = some (.ok c.reply) := by
  obtain ⟨h, hRun, hStorage, hLedger⟩ := run_of_performs hCaller hAuth hPerforms
  have hKept := atomically_ok.mpr hRun
  simp only [step, Observation.result, hKept, hStorage, hLedger]
  exact ⟨rfl, trivial⟩

/-- A call that performs no change fails, and leaves the world as it was. -/
theorem step_refuses (auth : Authorisation contract) (hCaller : call.caller = some a)
    (hNot : ¬ ∃ c, Performs contract client w call c) :
    (step contract w (.invoke auth client call)).1 = w ∧
      ∀ reply, (step contract w (.invoke auth client call)).2.result ≠ some (.ok reply) := by
  cases hRun : EStateM.run (dispatch ⟨contract, w.now, auth.grants, client⟩ call) w.host with
  | ok reply h =>
      obtain ⟨c, hPerforms, _⟩ := performs_of_run hCaller hRun
      exact absurd ⟨c, hPerforms⟩ hNot
  | error failure h =>
      have hRolledBack := atomically_error hRun
      simp only [step, Observation.result, hRolledBack]
      exact ⟨rfl, fun reply hReply => (by cases hReply)⟩

end Invoke

/-! What a change of one user leaves to another. -/

/-- How a token decides on a transfer: by permissions that no vault call
changes, by what the source can spend of its balance, and by whether the
destination's balance stays within what it may hold, be that an account's range
or the limit of a trustline. The contract need not keep a reserve and may hold
what an `i128` holds. -/
structure SpendingRule (contract : Address) (client : TokenClient Address) where
  permits : Transfer Address → Bool
  reserve : (token holder : Address) → Int
  limit : (token holder : Address) → Int
  reserve_nonneg : ∀ token holder, 0 ≤ reserve token holder
  reserve_contract : ∀ token, reserve token contract = 0
  limit_contract : ∀ token, limit token contract = 2 ^ 127
  accepts_iff : ∀ l t, client.accepts l t = true ↔ permits t = true ∧
    t.amount.val + reserve t.token t.source ≤ l t.token t.source ∧
    l t.token t.destination + t.amount.val < limit t.token t.destination

/-- Where the supply is within the range of balances, the contract is never
full: a transfer into it is accepted if and only if the token permits it and the
source has the amount beyond its reserve. -/
theorem SpendingRule.accepts_pull {client : TokenClient Address}
    (rule : SpendingRule contract client) {l : Ledger Address Address} {t : Transfer Address}
    (hSupply : l.WithinSupply t.token (2 ^ 127)) (hDiff : t.source ≠ t.destination)
    (hContract : t.destination = contract) :
    client.accepts l t = true ↔ rule.permits t = true ∧
      t.amount.val + rule.reserve t.token t.source ≤ l t.token t.source := by
  have hLimit : rule.limit t.token t.destination = 2 ^ 127 := by
    rw [hContract, rule.limit_contract]
  rw [rule.accepts_iff, hLimit]
  constructor
  · rintro ⟨hPermits, hSpends, _⟩
    exact ⟨hPermits, hSpends⟩
  · rintro ⟨hPermits, hSpends⟩
    have hReserve := rule.reserve_nonneg t.token t.source
    have hPair := hSupply.pair hDiff
    exact ⟨hPermits, hSpends, by omega⟩

/-- The contract can pay every vault out of its balance. -/
def Funded (contract : Address) (w : World Address) : Prop :=
  ∀ id v token, w.storage.token = some token → w.storage.vault id = some v →
    v.balance.val ≤ w.ledger token contract

/-- A change that a user may make: to a vault of its own, or to the next one. -/
structure OwnChange (contract : Address) (client : TokenClient Address) (w : World Address)
    (a : Address) (c : Change Address) : Prop where
  owner : c.vault.owner = a
  stored : c.next = none → ∃ v, w.storage.vault c.id = some v ∧ v.owner = a
  unused : c.next ≠ none → w.storage.vault c.id = none
  transfer : ∀ t, c.transfer = some t → w.storage.token = some t.token ∧ 0 ≤ t.amount.val ∧
    client.accepts w.ledger t = true ∧
    (t.source = a ∧ t.destination = contract ∨ t.source = contract ∧ t.destination = a)

omit [DecidableEq Address] in
theorem Performs.own {client : TokenClient Address} {w : World Address} {a : Address}
    {call : Call Address} {c : Change Address} (hSound : w.Sound) (hCaller : call.caller = some a)
    (h : Performs contract client w call c) : OwnChange contract client w a c := by
  cases call with
  | init token => cases hCaller
  | createVault owner name initialDeposit unlockTimestamp =>
      cases hCaller
      obtain ⟨hAmount, hTime, token, hToken, hAccepts, next, hSucc, rfl⟩ := h
      refine ⟨rfl, fun h => (by cases h), fun _ => hSound.allocated.fresh hToken, ?_⟩
      intro t ht
      cases ht
      exact ⟨hToken, Int.le_of_lt hAmount, hAccepts, Or.inl ⟨rfl, rfl⟩⟩
  | deposit caller vaultId amount =>
      cases hCaller
      obtain ⟨hAmount, v, hVault, hOwner, hLive, token, hToken, hAccepts, balance, hBalance, rfl⟩ := h
      refine ⟨hOwner, fun _ => ⟨v, hVault, hOwner⟩, fun h => absurd rfl h, ?_⟩
      intro t ht
      cases ht
      exact ⟨hToken, Int.le_of_lt hAmount, hAccepts, Or.inl ⟨rfl, rfl⟩⟩
  | extendLock caller vaultId additionalSeconds =>
      cases hCaller
      obtain ⟨hSeconds, v, hVault, hOwner, hLive, u, hUnlock, rfl⟩ := h
      exact ⟨hOwner, fun _ => ⟨v, hVault, hOwner⟩, fun h => absurd rfl h, fun t ht => (by cases ht)⟩
  | withdraw caller vaultId =>
      cases hCaller
      obtain ⟨v, hVault, hOwner, hLive, hTime, token, hToken, hAccepts, rfl⟩ := h
      refine ⟨hOwner, fun _ => ⟨v, hVault, hOwner⟩, fun h => absurd rfl h, ?_⟩
      intro t ht
      cases ht
      exact ⟨hToken, (hSound.wellFormed vaultId v hVault).balance_nonneg, hAccepts,
        Or.inr ⟨rfl, rfl⟩⟩

omit [DecidableEq Address] in
/-- Only a creating call uses up an id. -/
theorem Performs.next_none {client : TokenClient Address} {w : World Address} {call : Call Address}
    {c : Change Address} (h : Performs contract client w call c) (hOld : call.creates = false) :
    c.next = none := by
  cases call with
  | init token => exact h.elim
  | createVault owner name initialDeposit unlockTimestamp => cases hOld
  | deposit caller vaultId amount =>
      obtain ⟨_, _, _, _, _, _, _, _, _, _, rfl⟩ := h
      rfl
  | extendLock caller vaultId additionalSeconds =>
      obtain ⟨_, _, _, _, _, _, _, rfl⟩ := h
      rfl
  | withdraw caller vaultId =>
      obtain ⟨_, _, _, _, _, _, _, _, rfl⟩ := h
      rfl

section Change

variable {client : TokenClient Address} {w : World Address} {a b : Address}
  {c c' : Change Address}

/-- A vault of another user is stored after the change iff it was before. -/
theorem OwnChange.vault_iff (h : OwnChange contract client w b c) (hDiff : a ≠ b) (id : UInt64)
    (v : Vault Address) (hOwner : v.owner = a) :
    (w.perform c).storage.vault id = some v ↔ w.storage.vault id = some v := by
  show Function.update w.storage.vault c.id (some c.vault) id = some v ↔ _
  by_cases hId : id = c.id
  · subst hId
    rw [Function.update_self]
    refine iff_of_false ?_ ?_
    · intro hSame
      cases hSame
      exact hDiff (hOwner.symm.trans h.owner)
    · intro hVault
      by_cases hNext : c.next = none
      · obtain ⟨u, hStored, hOwn⟩ := h.stored hNext
        cases hVault.symm.trans hStored
        exact hDiff (hOwner.symm.trans hOwn)
      · cases hVault.symm.trans (h.unused hNext)
  · rw [Function.update_of_ne hId]

/-- The change leaves the balance of everybody but its user and the contract,
and the token's supply within its range. -/
theorem OwnChange.ledger (h : OwnChange contract client w b c) (rule : SpendingRule contract client)
    (hContract : b ≠ contract) {token : Address} (hToken : w.storage.token = some token)
    (hSupply : w.ledger.WithinSupply token (2 ^ 127)) :
    (w.perform c).ledger.WithinSupply token (2 ^ 127) ∧
      ∀ a, a ≠ b → a ≠ contract → (w.perform c).ledger token a = w.ledger token a := by
  unfold World.perform
  cases hTransfer : c.transfer with
  | none => exact ⟨hSupply, fun _ _ _ => rfl⟩
  | some t =>
      obtain ⟨hConfigured, hAmount, hAccepts, hParties⟩ := h.transfer t hTransfer
      cases hToken.symm.trans hConfigured
      obtain ⟨_, hSpends, _⟩ := (rule.accepts_iff w.ledger t).mp hAccepts
      have hReserve := rule.reserve_nonneg t.token t.source
      have hDiff : t.source ≠ t.destination := by
        rcases hParties with ⟨hSource, hDestination⟩ | ⟨hSource, hDestination⟩
        · rw [hSource, hDestination]
          exact hContract
        · rw [hSource, hDestination]
          exact hContract.symm
      refine ⟨hSupply.move hDiff hAmount (by omega), ?_⟩
      intro a ha hNotContract
      rcases hParties with ⟨hSource, hDestination⟩ | ⟨hSource, hDestination⟩
      · exact Ledger.move_bystander w.ledger t.token t.token t.amount.val (hSource ▸ ha)
          (hDestination ▸ hNotContract)
      · exact Ledger.move_bystander w.ledger t.token t.token t.amount.val (hSource ▸ hNotContract)
          (hDestination ▸ ha)

/-- Another user cannot tell that the change was made: the vaults, the balance
and whatever the token decides for that user are the same before and after. -/
theorem OwnChange.agree (h : OwnChange contract client w b c) (rule : SpendingRule contract client)
    (hDiff : a ≠ b) (hA : a ≠ contract) (hB : b ≠ contract)
    (hSupply : ∀ token, w.storage.token = some token → w.ledger.WithinSupply token (2 ^ 127))
    (hFunded : Funded contract w) (hFunded' : Funded contract (w.perform c)) :
    AgreeFor contract client a w (w.perform c) where
  now := rfl
  token := rfl
  vault := h.vault_iff hDiff
  pull token amount hToken _ := by
    obtain ⟨hSupply', hSame⟩ := h.ledger rule hB hToken (hSupply token hToken)
    rw [Bool.eq_iff_iff, rule.accepts_pull hSupply' hA rfl,
      rule.accepts_pull (hSupply token hToken) hA rfl]
    show _ ∧ _ ≤ (w.perform c).ledger token a ↔ _ ∧ _ ≤ w.ledger token a
    rw [hSame a hDiff hA]
  push token id v hToken hVault hOwner := by
    obtain ⟨_, hSame⟩ := h.ledger rule hB hToken (hSupply token hToken)
    have hBefore := hFunded id v token hToken hVault
    have hAfter := hFunded' id v token hToken ((h.vault_iff hDiff id v hOwner).mpr hVault)
    rw [Bool.eq_iff_iff, rule.accepts_iff, rule.accepts_iff]
    show _ ∧ v.balance.val + rule.reserve token contract ≤ (w.perform c).ledger token contract ∧
        (w.perform c).ledger token a + v.balance.val < rule.limit token a ↔
      _ ∧ v.balance.val + rule.reserve token contract ≤ w.ledger token contract ∧
        w.ledger token a + v.balance.val < rule.limit token a
    -- What user `a` may still receive is its own matter: its balance has not moved.
    rw [rule.reserve_contract, Int.add_zero, hSame a hDiff hA]
    exact and_congr_right fun _ => and_congr_left fun _ => iff_of_true hAfter hBefore

/-- Changes of two users, not both with a new id, can be exchanged. -/
theorem perform_comm (h : OwnChange contract client w a c) (h' : OwnChange contract client w b c')
    (hDiff : a ≠ b) (hNext : c.next = none ∨ c'.next = none) :
    (w.perform c).perform c' = (w.perform c').perform c := by
  have hId : c.id ≠ c'.id := by
    intro hSame
    rcases hNext with hNone | hNone
    · obtain ⟨v, hVault, hOwner⟩ := h.stored hNone
      have hKept := (h'.vault_iff hDiff c.id v hOwner).mpr hVault
      change Function.update w.storage.vault c'.id (some c'.vault) c.id = some v at hKept
      rw [hSame, Function.update_self] at hKept
      cases hKept
      exact hDiff (hOwner.symm.trans h'.owner)
    · obtain ⟨v, hVault, hOwner⟩ := h'.stored hNone
      have hKept := (h.vault_iff hDiff.symm c'.id v hOwner).mpr hVault
      change Function.update w.storage.vault c.id (some c.vault) c'.id = some v at hKept
      rw [← hSame, Function.update_self] at hKept
      cases hKept
      exact hDiff (h.owner.symm.trans hOwner)
  have hVaults := Function.update_comm hId (some c.vault) (some c'.vault) w.storage.vault
  have hLedgers : c'.transfer.elim (c.transfer.elim w.ledger fun t => t.perform w.ledger)
        (fun t => t.perform (c.transfer.elim w.ledger fun t => t.perform w.ledger)) =
      c.transfer.elim (c'.transfer.elim w.ledger fun t => t.perform w.ledger)
        (fun t => t.perform (c'.transfer.elim w.ledger fun t => t.perform w.ledger)) := by
    cases c.transfer with
    | none => rfl
    | some t =>
        cases c'.transfer with
        | none => rfl
        | some t' => exact Ledger.move_comm w.ledger _ _ _ _ _ _ _ _
  unfold World.perform
  simp only [hVaults, hLedgers]
  rcases hNext with hNone | hNone
  · simp only [hNone, Option.none_or, Option.isSome_none, Bool.false_eq_true, if_false]
  · simp only [hNone, Option.none_or, Option.isSome_none, Bool.false_eq_true, if_false]

end Change

/-- What holds of every reachable world whose token is within its supply. -/
structure Ready (contract : Address) (w : World Address) : Prop where
  sound : w.Sound
  funded : Funded contract w
  supply : ∀ token, w.storage.token = some token → w.ledger.WithinSupply token (2 ^ 127)

/-- Whether and how one user's call succeeds does not depend on a change that
another has made before. -/
theorem performs_iff {client : TokenClient Address} (rule : SpendingRule contract client)
    {w : World Address} {f g : Call Address} {a b : Address} {cg : Change Address}
    (hReady : Ready contract w) (hReady' : Ready contract (w.perform cg))
    (hF : f.caller = some a) (hG : g.caller = some b) (hDiff : a ≠ b) (hA : a ≠ contract)
    (hB : b ≠ contract) (hCreates : f.creates = true → g.creates = false)
    (hPerforms : Performs contract client w g cg) (c : Change Address) :
    Performs contract client (w.perform cg) f c ↔ Performs contract client w f c := by
  have hAgree := (hPerforms.own hReady.sound hG).agree rule hDiff hA hB hReady.supply hReady.funded
    hReady'.funded
  have hNext (hNew : f.creates = true) : (w.perform cg).storage.nextId = w.storage.nextId := by
    show cg.next.or w.storage.nextId = _
    rw [hPerforms.next_none (hCreates hNew), Option.none_or]
  exact ⟨Performs.transport hF (fun hNew => (hNext hNew).symm) hAgree.symm,
    Performs.transport hF hNext hAgree⟩

theorem Ready.reachable (g : Genesis contract) (as : List (Action contract))
    (hSupply : ∀ token, (final (step contract) g.world as).storage.token = some token →
      (final (step contract) g.world as).ledger.WithinSupply token (2 ^ 127)) :
    Ready contract (final (step contract) g.world as) where
  sound := World.Sound.reachable g as
  funded _ _ _ hToken hVault := balance_le_ledger g as hVault hToken
  supply := hSupply

/-- A successful call of a user takes a ready world to a ready one, so the other
call can be looked at there as well. -/
theorem Ready.after (g : Genesis contract) (as : List (Action contract))
    {client : TokenClient Address} (rule : SpendingRule contract client)
    {auth : Authorisation contract} {call : Call Address} {a : Address}
    (hReady : Ready contract (final (step contract) g.world as)) (hCaller : call.caller = some a)
    (hAuth : auth.grants a = true) {c : Change Address}
    (hPerforms : Performs contract client (final (step contract) g.world as) call c) :
    Ready contract ((final (step contract) g.world as).perform c) := by
  have hOwn := hPerforms.own hReady.sound hCaller
  have hStep := (step_performs hCaller hAuth hPerforms).1
  have hAfter : final (step contract) g.world (as ++ [.invoke auth client call]) =
      (final (step contract) g.world as).perform c := by
    rw [final_concat, hStep]
  rw [← hAfter]
  refine Ready.reachable g _ ?_
  rw [hAfter]
  intro token hToken
  exact (hOwn.ledger rule (auth.ne_contract hAuth) hToken (hReady.supply token hToken)).1

/-- In every reachable state, authorised calls of two users, not both creating
a vault, have the same outcomes, the same storage and the same balances in
either order. The token decides by its spending rule and its supply is within
the range of balances. -/
theorem calls_independent (g₀ : Genesis contract) (as : List (Action contract))
    (client : TokenClient Address) (rule : SpendingRule contract client)
    (authF authG : Authorisation contract) (f g : Call Address) (a b : Address)
    (hF : f.caller = some a) (hG : g.caller = some b) (hAuthF : authF.grants a = true)
    (hAuthG : authG.grants b = true) (hDiff : a ≠ b)
    (hCreates : ¬ (f.creates = true ∧ g.creates = true))
    (hSupply : ∀ token, (final (step contract) g₀.world as).storage.token = some token →
      (final (step contract) g₀.world as).ledger.WithinSupply token (2 ^ 127)) :
    let w := final (step contract) g₀.world as
    let fThen := step contract w (.invoke authF client f)
    let thenG := step contract fThen.1 (.invoke authG client g)
    let gThen := step contract w (.invoke authG client g)
    let thenF := step contract gThen.1 (.invoke authF client f)
    (∀ reply, fThen.2.result = some (.ok reply) ↔ thenF.2.result = some (.ok reply)) ∧
      (∀ reply, thenG.2.result = some (.ok reply) ↔ gThen.2.result = some (.ok reply)) ∧
      thenG.1 = thenF.1 := by
  intro w fThen thenG gThen thenF
  have hReady : Ready contract w := Ready.reachable g₀ as hSupply
  have hA := authF.ne_contract hAuthF
  have hB := authG.ne_contract hAuthG
  have hCreatesF (hNew : f.creates = true) : g.creates = false :=
    Bool.eq_false_iff.mpr fun h => hCreates ⟨hNew, h⟩
  have hCreatesG (hNew : g.creates = true) : f.creates = false :=
    Bool.eq_false_iff.mpr fun h => hCreates ⟨h, hNew⟩
  by_cases hDoesF : ∃ c, Performs contract client w f c
  · obtain ⟨cf, hPerformsF⟩ := hDoesF
    obtain ⟨hWorldF, hReplyF⟩ := step_performs hF hAuthF hPerformsF
    have hReadyF : Ready contract (w.perform cf) := hReady.after g₀ as rule hF hAuthF hPerformsF
    have hKeepsG := performs_iff rule hReady hReadyF hG hF hDiff.symm hB hA hCreatesG hPerformsF
    by_cases hDoesG : ∃ c, Performs contract client w g c
    · -- Both succeed, in either order.
      obtain ⟨cg, hPerformsG⟩ := hDoesG
      obtain ⟨hWorldG, hReplyG⟩ := step_performs hG hAuthG hPerformsG
      have hReadyG : Ready contract (w.perform cg) := hReady.after g₀ as rule hG hAuthG hPerformsG
      have hKeepsF := performs_iff rule hReady hReadyG hF hG hDiff hA hB hCreatesF hPerformsG
      obtain ⟨hWorldFG, hReplyFG⟩ := step_performs hG hAuthG ((hKeepsG cg).mpr hPerformsG)
      obtain ⟨hWorldGF, hReplyGF⟩ := step_performs hF hAuthF ((hKeepsF cf).mpr hPerformsF)
      have hNext : cf.next = none ∨ cg.next = none := by
        cases hNew : f.creates with
        | false => exact Or.inl (hPerformsF.next_none hNew)
        | true => exact Or.inr (hPerformsG.next_none (hCreatesF hNew))
      simp only [fThen, thenG, gThen, thenF, hWorldF, hWorldG, hReplyF, hReplyG, hWorldFG, hReplyFG,
        hWorldGF, hReplyGF]
      exact ⟨fun _ => trivial, fun _ => trivial, perform_comm (hPerformsF.own hReady.sound hF)
        (hPerformsG.own hReady.sound hG) hDiff hNext⟩
    · have hLater : ¬ ∃ c, Performs contract client (w.perform cf) g c :=
        fun ⟨c, hc⟩ => hDoesG ⟨c, (hKeepsG c).mp hc⟩
      obtain ⟨hWorldG, hReplyG⟩ := step_refuses authG hG hDoesG
      obtain ⟨hWorldFG, hReplyFG⟩ := step_refuses authG hG hLater
      simp only [fThen, thenG, gThen, thenF, hWorldF, hWorldG, hReplyF, hWorldFG]
      exact ⟨fun _ => trivial, fun reply => iff_of_false (hReplyFG reply) (hReplyG reply), trivial⟩
  · obtain ⟨hWorldF, hReplyF⟩ := step_refuses authF hF hDoesF
    by_cases hDoesG : ∃ c, Performs contract client w g c
    · obtain ⟨cg, hPerformsG⟩ := hDoesG
      obtain ⟨hWorldG, hReplyG⟩ := step_performs hG hAuthG hPerformsG
      have hReadyG : Ready contract (w.perform cg) := hReady.after g₀ as rule hG hAuthG hPerformsG
      have hKeepsF := performs_iff rule hReady hReadyG hF hG hDiff hA hB hCreatesF hPerformsG
      have hLater : ¬ ∃ c, Performs contract client (w.perform cg) f c :=
        fun ⟨c, hc⟩ => hDoesF ⟨c, (hKeepsF c).mp hc⟩
      obtain ⟨hWorldGF, hReplyGF⟩ := step_refuses authF hF hLater
      simp only [fThen, thenG, gThen, thenF, hWorldF, hWorldG, hReplyG, hWorldGF]
      exact ⟨fun reply => iff_of_false (hReplyF reply) (hReplyGF reply), fun _ => trivial, trivial⟩
    · obtain ⟨hWorldG, hReplyG⟩ := step_refuses authG hG hDoesG
      simp only [fThen, thenG, gThen, thenF, hWorldF, hWorldG]
      exact ⟨fun _ => trivial, fun _ => trivial, trivial⟩

/-- Every account keeps 1 of each token. -/
def accountReserve (holder : Nat) : Int := if holder = 0 then 0 else 1

/-- Every account may hold less than 5000 of each token. -/
def accountLimit (holder : Nat) : Int := if holder = 0 then 2 ^ 127 else 5000

/-- A token that permits everything the accounts can spend and receive. -/
def spendingClient : TokenClient Nat :=
  ⟨fun l t => decide (t.amount.val + accountReserve t.source ≤ l t.token t.source ∧
    l t.token t.destination + t.amount.val < accountLimit t.destination)⟩

theorem accountReserve_nonneg (holder : Nat) : 0 ≤ accountReserve holder := by
  unfold accountReserve
  split_ifs <;> omega

def spendingRule : SpendingRule (0 : Nat) spendingClient where
  permits _ := true
  reserve _ := accountReserve
  limit _ := accountLimit
  reserve_nonneg _ := accountReserve_nonneg
  reserve_contract _ := if_pos rfl
  limit_contract _ := if_pos rfl
  accepts_iff _ _ := decide_eq_true_iff.trans (and_iff_right rfl).symm

/-- Addresses 7 and 8 hold 1000 each. -/
def fundedGenesis : Genesis (0 : Nat) :=
  ⟨fun _ a => (if a = 7 then 1000 else 0) + if a = 8 then 1000 else 0, 0, fun _ => rfl⟩

theorem fundedGenesis_within (token : Nat) :
    fundedGenesis.ledger.WithinSupply token (2 ^ 127) where
  nonneg a := by
    show (0 : Int) ≤ (if a = 7 then 1000 else 0) + if a = 8 then 1000 else 0
    split_ifs <;> omega
  total holders := by
    show ∑ a ∈ holders, ((if a = 7 then (1000 : Int) else 0) + if a = 8 then 1000 else 0) < 2 ^ 127
    rw [Finset.sum_add_distrib, Finset.sum_ite_eq', Finset.sum_ite_eq']
    split_ifs <;> omega

/-- Address 8 deposits into an id that address 7 has yet to create. -/
theorem calls_independent_sample :
    let w := final (step (0 : Nat)) fundedGenesis.world [.invoke everyone willing (.init 1)]
    let f : Call Nat := .createVault 7 "Rent" ⟨500, by decide, by decide⟩ 86400
    let g : Call Nat := .deposit 8 0 ⟨20, by decide, by decide⟩
    (step 0 (step 0 w (.invoke everyone spendingClient f)).1 (.invoke everyone spendingClient g)).1 =
      (step 0 (step 0 w (.invoke everyone spendingClient g)).1 (.invoke everyone spendingClient f)).1 := by
  intro w f g
  exact (calls_independent fundedGenesis [.invoke everyone willing (.init 1)] spendingClient spendingRule
    everyone everyone f g 7 8 rfl rfl rfl rfl (by decide) (by decide)
    (fun token _ => fundedGenesis_within token)).2.2

end XlmVault
