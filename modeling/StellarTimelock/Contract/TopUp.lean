import StellarTimelock.Contract.Solvency

/-! Top-ups never overflow. The contract adds to a balance without a check, but
the token has already added the same amount to a balance that is no smaller. -/
namespace XlmVault

open Transaction Execution

variable {Address : Type}

section Deposit

variable [DecidableEq Address]

/-- An accepted transfer leaves each party a balance that is an `i128` and not
negative. -/
def TokenClient.KeepsRange (client : TokenClient Address) (l : Ledger Address Address) : Prop :=
  ∀ t, client.accepts l t = true → ∀ a, a = t.source ∨ a = t.destination →
    0 ≤ l.move t.token t.source t.destination t.amount.val t.token a ∧
      l.move t.token t.source t.destination t.amount.val t.token a < 2 ^ 127

/-- A deposit that has passed every check and been paid for. -/
structure PaidDeposit (env : Env Address) (h : Host Address) (caller : Address) (vaultId : UInt64)
    (amount : I128) (v : Vault Address) (token : Address) : Prop where
  authorised : env.auth caller = true
  positive : 0 < amount.val
  stored : h.storage.vault vaultId = some v
  owned : v.owner = caller
  live : v.withdrawn = false
  configured : h.storage.token = some token
  accepted : env.client.accepts h.ledger (pulled env token caller amount) = true

/-- The addition is the only place where a deposit can overflow. -/
theorem deposit_overflow {env : Env Address} {caller : Address} {vaultId : UInt64} {amount : I128}
    {h h' : Host Address}
    (hRun : EStateM.run (deposit env caller vaultId amount) h = .error (.trap .overflow) h') :
    ∃ v token, PaidDeposit env h caller vaultId amount v token ∧
      v.balance.checkedAdd amount = none := by
  simp only [deposit, requireAuth, load, pull, token, transfer, bind_assoc, run_get_bind,
    run_modify_bind, run_refuseIf_bind_error, run_orFail_bind_error, Failure.trap.injEq,
    reduceCtorEq, false_and, and_false, false_or, true_and] at hRun
  obtain ⟨hAuth, hAmount, v, hVault, hOwner, hLive, token, hToken, hAccepts, hEnd⟩ := hRun
  rcases hEnd with ⟨hSum, _⟩ | ⟨balance, _, hPublish⟩
  · rw [I128.le_def, I128.val_zero, Int.not_le] at hAmount
    exact ⟨v, token, ⟨Bool.not_eq_false _ ▸ hAuth, hAmount, hVault, not_not.mp hOwner,
      Bool.not_eq_true _ ▸ hLive, hToken, Bool.not_eq_false _ ▸ hAccepts⟩, hSum⟩
  · cases hPublish

/-- In a reachable state the books are covered by the contract's own balance,
to which the token has just added the amount. -/
theorem PaidDeposit.sum_fits {contract : Address} {g : Genesis contract}
    {as : List (Action contract)} {auth : Authorisation contract} {client : TokenClient Address}
    {caller token : Address} {id : UInt64} {amount : I128} {v : Vault Address}
    (hRange : client.KeepsRange (final (step contract) g.world as).ledger)
    (h : PaidDeposit ⟨contract, (final (step contract) g.world as).now, auth.grants, client⟩
      (final (step contract) g.world as).host caller id amount v token) :
    ∃ balance, v.balance.checkedAdd amount = some balance ∧ 0 < balance.val := by
  have hSound := World.Sound.reachable g as
  have hCovered := balance_le_ledger g as h.stored h.configured
  have hReceived := (hRange _ h.accepted contract (Or.inr rfl)).2
  have hPositive := (hSound.wellFormed id v h.stored).balance_pos h.live
  have hAmount := h.positive
  have hMoved : (final (step contract) g.world as).ledger.move token caller contract amount.val
      token contract = (final (step contract) g.world as).ledger token contract + amount.val :=
    Ledger.move_destination _ token amount.val (auth.ne_contract h.authorised)
  have hFits : v.balance.val + amount.val < 2 ^ 127 := by
    calc
      v.balance.val + amount.val ≤
          (final (step contract) g.world as).ledger token contract + amount.val := by omega
      _ < 2 ^ 127 := by
        rw [← hMoved]
        exact hReceived
  have hSum : (⟨v.balance.val + amount.val, by omega, hFits⟩ : I128).val =
      v.balance.val + amount.val := rfl
  exact ⟨_, I128.checkedAdd_eq_some.mpr hSum, by rw [hSum]; omega⟩

/-- In every reachable state and for a token whose balances stay in the range
of `i128`, no deposit overflows: each one that the token has paid for is booked
in full, and the stored balance is positive. -/
theorem deposit_never_overflows {contract : Address} (g : Genesis contract)
    (as : List (Action contract)) (auth : Authorisation contract) (client : TokenClient Address)
    (caller : Address) (id : UInt64) (amount : I128)
    (hRange : client.KeepsRange (final (step contract) g.world as).ledger) :
    let w := final (step contract) g.world as
    let env : Env Address := ⟨contract, w.now, auth.grants, client⟩
    (∀ h, EStateM.run (deposit env caller id amount) w.host ≠ .error (.trap .overflow) h) ∧
      ∀ v token, PaidDeposit env w.host caller id amount v token →
        ∃ h balance, EStateM.run (deposit env caller id amount) w.host = .ok ⟨⟩ h ∧
          h.storage.vault id = some { v with balance } ∧
          balance.val = v.balance.val + amount.val ∧ 0 < balance.val := by
  intro w env
  constructor
  · intro h hRun
    obtain ⟨v, token, hPaid, hNone⟩ := deposit_overflow hRun
    obtain ⟨balance, hSome, _⟩ := hPaid.sum_fits hRange
    rw [hNone] at hSome
    cases hSome
  · intro v token hPaid
    obtain ⟨balance, hSum, hPositive⟩ := hPaid.sum_fits hRange
    have hBody : EStateM.run (deposit env caller id amount) w.host = .ok ⟨⟩ _ :=
      deposit_ok.mpr ⟨hPaid.authorised, hPaid.positive, v, hPaid.stored, hPaid.owned, hPaid.live,
        token, hPaid.configured, hPaid.accepted, balance, hSum, rfl⟩
    exact ⟨_, balance, hBody, Function.update_self id _ _, I128.checkedAdd_eq_some.mp hSum,
      hPositive⟩

end Deposit

/-- A token that checks the range of both balances. -/
def checkingClient : TokenClient Nat where
  accepts l t :=
    let after := l.move t.token t.source t.destination t.amount.val t.token
    decide ((0 ≤ after t.source ∧ after t.source < 2 ^ 127) ∧
      0 ≤ after t.destination ∧ after t.destination < 2 ^ 127)

/-- The owner of the sample vault starts with 1000. -/
def wealthyGenesis : Genesis (0 : Nat) := ⟨fun _ a => if a = 7 then 1000 else 0, 0, fun _ => rfl⟩

/-- Another 30 are added to the vault that holds 520. -/
theorem deposit_never_overflows_sample :
    let w := final (step (0 : Nat)) wealthyGenesis.world sampleRun
    ∃ h balance, EStateM.run (deposit ⟨0, w.now, everyone.grants, checkingClient⟩ 7 0
        ⟨30, by decide, by decide⟩) w.host = .ok ⟨⟩ h ∧
      h.storage.vault 0 = some ⟨0, 7, "Rent", balance, 86400, 0, false⟩ ∧ balance.val = 550 := by
  intro w
  have hRange : checkingClient.KeepsRange w.ledger := by
    intro t hAccepts a hParty
    have hBoth := of_decide_eq_true hAccepts
    rcases hParty with rfl | rfl
    · exact hBoth.1
    · exact hBoth.2
  have hPaid : PaidDeposit ⟨0, w.now, everyone.grants, checkingClient⟩ w.host 7 0
      ⟨30, by decide, by decide⟩ ⟨0, 7, "Rent", ⟨520, by decide, by decide⟩, 86400, 0, false⟩ 1 :=
    ⟨rfl, by decide, rfl, rfl, rfl, rfl, by decide⟩
  obtain ⟨h, balance, hRun, hStored, hSum, _⟩ := (deposit_never_overflows wealthyGenesis sampleRun
    everyone checkingClient 7 0 ⟨30, by decide, by decide⟩ hRange).2 _ 1 hPaid
  exact ⟨h, balance, hRun, hStored, hSum⟩

end XlmVault
