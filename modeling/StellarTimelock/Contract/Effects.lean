import StellarTimelock.Contract.XlmVault

/-! What each entry point of the contract does when it succeeds: the checks it
has passed, the value it returns and the whole host state it leaves. Every
later fact about the contract is read off these statements. -/
namespace XlmVault

open Transaction

variable {Address α : Type}

/-- A body that begins with `require_auth` succeeds exactly if the address has
authorised the invocation and the rest succeeds. -/
theorem requireAuth_bind_ok {env : Env Address} {a : Address} {f : PUnit → Contract Address α}
    {h h' : Host Address} {r : α} : EStateM.run (requireAuth env a >>= f) h = .ok r h' ↔
      env.auth a = true ∧ EStateM.run (f ⟨⟩) h = .ok r h' := by
  simp only [requireAuth, run_refuseIf_bind_ok, Bool.not_eq_false]

/-- A body that begins by loading a vault succeeds exactly if the vault is
stored and the rest succeeds with it. -/
theorem load_bind_ok {vaultId : UInt64} {f : Vault Address → Contract Address α}
    {h h' : Host Address} {r : α} : EStateM.run (load vaultId >>= f) h = .ok r h' ↔
      ∃ v, h.storage.vault vaultId = some v ∧ EStateM.run (f v) h = .ok r h' := by
  simp only [load, bind_assoc, run_get_bind, run_orFail_bind_ok]

variable [DecidableEq Address]

/-- The transfer that `pull` asks the token for. -/
def pulled (env : Env Address) (token source : Address) (amount : I128) : Transfer Address :=
  ⟨token, source, env.currentContract, amount⟩

/-- The transfer that `push` asks the token for. -/
def pushed (env : Env Address) (token destination : Address) (amount : I128) :
    Transfer Address :=
  ⟨token, env.currentContract, destination, amount⟩

/-- A body that begins with a transfer into the contract succeeds exactly if the
token is set and accepts the transfer and the rest succeeds after it. -/
theorem pull_bind_ok {env : Env Address} {source : Address} {amount : I128}
    {f : PUnit → Contract Address α} {h h' : Host Address} {r : α} :
    EStateM.run (pull env source amount >>= f) h = .ok r h' ↔
      ∃ token, h.storage.token = some token ∧
        env.client.accepts h.ledger (pulled env token source amount) = true ∧
        EStateM.run (f ⟨⟩) (h.moved (pulled env token source amount)) = .ok r h' := by
  simp only [pull, token, transfer, bind_assoc, run_get_bind, run_orFail_bind_ok,
    run_refuseIf_bind_ok, run_modify_bind, Bool.not_eq_false, pulled]

/-- The same of a transfer out of the contract. Nothing is asked of the
contract's balance here: whether it is enough is for the token to say, and a
theorem about reachable worlds. -/
theorem push_bind_ok {env : Env Address} {destination : Address} {amount : I128}
    {f : PUnit → Contract Address α} {h h' : Host Address} {r : α} :
    EStateM.run (push env destination amount >>= f) h = .ok r h' ↔
      ∃ token, h.storage.token = some token ∧
        env.client.accepts h.ledger (pushed env token destination amount) = true ∧
        EStateM.run (f ⟨⟩) (h.moved (pushed env token destination amount)) = .ok r h' := by
  simp only [push, token, transfer, bind_assoc, run_get_bind, run_orFail_bind_ok,
    run_refuseIf_bind_ok, run_modify_bind, Bool.not_eq_false, pushed]

omit [DecidableEq Address] in
/-- `init` succeeds exactly once: it refuses if a token is set, and otherwise
sets the token and starts the counter of ids at zero. -/
theorem init_ok {token : Address} {h h' : Host Address} {u : PUnit} :
    EStateM.run (init token) h = .ok u h' ↔
      h.storage.token = none ∧ h' = (h.setToken token).setNextId 0 := by
  simp only [init, run_get_bind, run_refuseIf_bind_ok, run_modify_bind, run_modify_ok,
    Option.not_isSome_iff_eq_none]

/-- The identifier the next vault receives. -/
def Host.freshId (h : Host Address) : UInt64 := h.storage.nextId.getD 0

/-- The host after a vault has been paid for, stored, indexed and announced. -/
def Host.created (h : Host Address) (t : Transfer Address) (next : UInt64)
    (v : Vault Address) : Host Address :=
  ((((h.moved t).setNextId next).setVault v.vaultId v).setOwned v.owner
    ((h.storage.owned v.owner).getD [] ++ [v.vaultId])).publish
      [.symbol "create", .address v.owner]
      [.u64 v.vaultId, .i128 v.balance, .u64 v.unlockTimestamp]

/-- When `create_vault` succeeds, what it returns and what it leaves. The id is
the counter before the call; the transfer is made before the counter is raised
and the vault is stored. -/
theorem createVault_ok {env : Env Address} {owner : Address} {name : String}
    {initialDeposit : I128} {unlockTimestamp id : UInt64} {h h' : Host Address} :
    EStateM.run (createVault env owner name initialDeposit unlockTimestamp) h = .ok id h' ↔
      env.auth owner = true ∧ 0 < initialDeposit.val ∧ env.timestamp < unlockTimestamp ∧
      ∃ token, h.storage.token = some token ∧
        env.client.accepts h.ledger (pulled env token owner initialDeposit) = true ∧
        ∃ next, h.freshId.checkedAdd 1 = some next ∧ id = h.freshId ∧
        h' = h.created (pulled env token owner initialDeposit) next
          ⟨id, owner, name, initialDeposit, unlockTimestamp, env.timestamp, false⟩ := by
  simp only [createVault, requireAuth_bind_ok, run_refuseIf_bind_ok, pull_bind_ok, run_get_bind,
    run_orFail_bind_ok, run_modify_bind, run_pure_ok, I128.le_def, I128.val_zero, Int.not_le,
    UInt64.not_le]
  -- The two sides differ only in naming the identifier that `nextId` yields.
  constructor
  · rintro ⟨hAuth, hAmount, hTime, token, hToken, hAccepts, next, hNext, rfl, rfl⟩
    exact ⟨hAuth, hAmount, hTime, token, hToken, hAccepts, next, hNext, rfl, rfl⟩
  · rintro ⟨hAuth, hAmount, hTime, token, hToken, hAccepts, next, hNext, rfl, rfl⟩
    exact ⟨hAuth, hAmount, hTime, token, hToken, hAccepts, next, hNext, rfl, rfl⟩

/-- When `deposit` succeeds and what it leaves: only the balance of one live
vault of the caller is raised, by a checked addition, after the transfer was
accepted. -/
theorem deposit_ok {env : Env Address} {caller : Address} {vaultId : UInt64} {amount : I128}
    {h h' : Host Address} {u : PUnit} :
    EStateM.run (deposit env caller vaultId amount) h = .ok u h' ↔
      env.auth caller = true ∧ 0 < amount.val ∧
      ∃ v, h.storage.vault vaultId = some v ∧ v.owner = caller ∧ v.withdrawn = false ∧
      ∃ token, h.storage.token = some token ∧
        env.client.accepts h.ledger (pulled env token caller amount) = true ∧
        ∃ balance, v.balance.checkedAdd amount = some balance ∧
        h' = (((h.moved (pulled env token caller amount)).setVault vaultId
          { v with balance }).publish [.symbol "deposit", .address caller]
            [.u64 vaultId, .i128 amount]) := by
  simp only [deposit, requireAuth_bind_ok, run_refuseIf_bind_ok, load_bind_ok, pull_bind_ok,
    run_orFail_bind_ok, run_modify_bind, run_modify_ok, I128.le_def, I128.val_zero, Int.not_le,
    ne_eq, not_not, Bool.not_eq_true]

/-- When `extend_lock` succeeds and what it leaves. No token is asked and the
time is not looked at: a lock that is already due can be put off as well. -/
theorem extendLock_ok {env : Env Address} {caller : Address}
    {vaultId additionalSeconds unlockTimestamp : UInt64} {h h' : Host Address} :
    EStateM.run (extendLock env caller vaultId additionalSeconds) h = .ok unlockTimestamp h' ↔
      env.auth caller = true ∧ additionalSeconds ≠ 0 ∧
      ∃ v, h.storage.vault vaultId = some v ∧ v.owner = caller ∧ v.withdrawn = false ∧
        v.unlockTimestamp.checkedAdd additionalSeconds = some unlockTimestamp ∧
        h' = ((h.setVault vaultId { v with unlockTimestamp }).publish
          [.symbol "extend", .address caller] [.u64 vaultId, .u64 unlockTimestamp]) := by
  simp only [extendLock, requireAuth_bind_ok, run_refuseIf_bind_ok, load_bind_ok,
    run_orFail_bind_ok, run_modify_bind, run_pure_ok, ne_eq, not_not, Bool.not_eq_true]
  constructor
  · rintro ⟨hAuth, hSeconds, v, hVault, hOwner, hLive, _, hSum, rfl, rfl⟩
    exact ⟨hAuth, hSeconds, v, hVault, hOwner, hLive, hSum, rfl⟩
  · rintro ⟨hAuth, hSeconds, v, hVault, hOwner, hLive, hSum, rfl⟩
    exact ⟨hAuth, hSeconds, v, hVault, hOwner, hLive, _, hSum, rfl, rfl⟩

/-- When `withdraw` succeeds and what it leaves: the vault is emptied and marked
before the transfer, which is of the whole balance that it had. -/
theorem withdraw_ok {env : Env Address} {caller : Address} {vaultId : UInt64} {amount : I128}
    {h h' : Host Address} :
    EStateM.run (withdraw env caller vaultId) h = .ok amount h' ↔
      env.auth caller = true ∧
      ∃ v, h.storage.vault vaultId = some v ∧ v.owner = caller ∧ v.withdrawn = false ∧
        v.unlockTimestamp ≤ env.timestamp ∧
      ∃ token, h.storage.token = some token ∧
        env.client.accepts h.ledger (pushed env token caller amount) = true ∧
        amount = v.balance ∧
        h' = (((h.setVault vaultId { v with balance := 0, withdrawn := true }).moved
          (pushed env token caller amount)).publish [.symbol "withdraw", .address caller]
            [.u64 vaultId, .i128 amount]) := by
  simp only [withdraw, requireAuth_bind_ok, run_refuseIf_bind_ok, load_bind_ok, push_bind_ok,
    run_modify_bind, run_pure_ok, UInt64.not_lt, ne_eq, not_not, Bool.not_eq_true]
  constructor
  · rintro ⟨hAuth, v, hVault, hOwner, hLive, hTime, token, hToken, hAccepts, rfl, rfl⟩
    exact ⟨hAuth, v, hVault, hOwner, hLive, hTime, token, hToken, hAccepts, rfl, rfl⟩
  · rintro ⟨hAuth, v, hVault, hOwner, hLive, hTime, token, hToken, hAccepts, rfl, rfl⟩
    exact ⟨hAuth, v, hVault, hOwner, hLive, hTime, token, hToken, hAccepts, rfl, rfl⟩

end XlmVault
