import StellarTimelock.Contract.Solvency

/-! The order of checks and effects in the entry points. Every body first reads
and refuses; the rest of it writes, transfers and publishes. -/
namespace XlmVault

open Transaction Execution

variable {Address : Type}

/-- The computation ends in no `Error`; it may still trap. -/
def Errorless {α : Type} (x : Contract Address α) : Prop :=
  ∀ h e h', EStateM.run x h ≠ .error (.error e) h'

namespace Errorless

variable {α β : Type}

/-- Two parts that raise no contract error in a row raise none. -/
theorem bind {x : Contract Address α} {f : α → Contract Address β} (hFirst : Errorless x)
    (hRest : ∀ a, Errorless (f a)) : Errorless (x >>= f) := by
  intro h e h' hRun
  rcases run_bind_error.mp hRun with hFailed | ⟨a, m, _, hFailed⟩
  · exact hFirst h e h' hFailed
  · exact hRest a m e h' hFailed

theorem pure (a : α) : Errorless (Pure.pure a : Contract Address α) := by
  intro h e h' hRun
  cases hRun

theorem get : Errorless (MonadState.get : Contract Address (Host Address)) := by
  intro h e h' hRun
  cases hRun

theorem modify (g : Host Address → Host Address) :
    Errorless (modify g : Contract Address PUnit) := by
  intro h e h' hRun
  cases hRun

theorem refuseIf (condition : Prop) [Decidable condition] (t : Trap) :
    Errorless (Transaction.refuseIf condition (.trap t) : Contract Address PUnit) := by
  intro h e h' hRun
  unfold Transaction.refuseIf at hRun
  split at hRun <;> cases hRun

theorem orFail (value : Option α) (t : Trap) :
    Errorless (Transaction.orFail value (.trap t) : Contract Address α) := by
  intro h e h' hRun
  cases value <;> cases hRun

theorem token : Errorless (token : Contract Address Address) := bind get fun _ => orFail _ _

end Errorless

variable [DecidableEq Address]

/-- The checks of a body. What they end with is the rest of the body. -/
def checks (env : Env Address) :
    Call Address → ReaderT (Host Address) (Except Failure) (Contract Address Reply)
  | .init token => do
      let host ← read
      refuse (host.storage.token.isSome = true) (.error .alreadyInitialised)
      return do
        modify (Host.setToken token)
        modify (Host.setNextId 0)
        return .unit
  | .createVault owner name initialDeposit unlockTimestamp => do
      refuse (env.auth owner = false) (.trap .unauthorised)
      refuse (initialDeposit ≤ 0) (.error .invalidAmount)
      refuse (unlockTimestamp ≤ env.timestamp) (.error .invalidTimestamp)
      return do
        pull env owner initialDeposit
        let host ← get
        let id := host.storage.nextId.getD 0
        let next ← orFail (id.checkedAdd 1) (.error .invalidAmount)
        modify (Host.setNextId next)
        modify (Host.setVault id
          ⟨id, owner, name, initialDeposit, unlockTimestamp, env.timestamp, false⟩)
        let host ← get
        modify (Host.setOwned owner ((host.storage.owned owner).getD [] ++ [id]))
        modify (Host.publish [.symbol "create", .address owner]
          [.u64 id, .i128 initialDeposit, .u64 unlockTimestamp])
        return .id id
  | .deposit caller vaultId amount => do
      refuse (env.auth caller = false) (.trap .unauthorised)
      refuse (amount ≤ 0) (.error .invalidAmount)
      let host ← read
      let v ← demand (host.storage.vault vaultId) (.error .vaultNotFound)
      refuse (v.owner ≠ caller) (.error .notOwner)
      refuse (v.withdrawn = true) (.error .alreadyWithdrawn)
      return do
        pull env caller amount
        let balance ← orFail (v.balance.checkedAdd amount) (.trap .overflow)
        modify (Host.setVault vaultId { v with balance })
        modify (Host.publish [.symbol "deposit", .address caller] [.u64 vaultId, .i128 amount])
        return .unit
  | .extendLock caller vaultId additionalSeconds => do
      refuse (env.auth caller = false) (.trap .unauthorised)
      refuse (additionalSeconds = 0) (.error .shortenForbidden)
      let host ← read
      let v ← demand (host.storage.vault vaultId) (.error .vaultNotFound)
      refuse (v.owner ≠ caller) (.error .notOwner)
      refuse (v.withdrawn = true) (.error .alreadyWithdrawn)
      let unlockTimestamp ← demand (v.unlockTimestamp.checkedAdd additionalSeconds)
        (.error .invalidTimestamp)
      return do
        modify (Host.setVault vaultId { v with unlockTimestamp })
        modify (Host.publish [.symbol "extend", .address caller] [.u64 vaultId, .u64 unlockTimestamp])
        return .unlock unlockTimestamp
  | .withdraw caller vaultId => do
      refuse (env.auth caller = false) (.trap .unauthorised)
      let host ← read
      let v ← demand (host.storage.vault vaultId) (.error .vaultNotFound)
      refuse (v.owner ≠ caller) (.error .notOwner)
      refuse (v.withdrawn = true) (.error .alreadyWithdrawn)
      refuse (env.timestamp < v.unlockTimestamp) (.error .stillLocked)
      return do
        modify (Host.setVault vaultId { v with balance := 0, withdrawn := true })
        push env caller v.balance
        modify (Host.publish [.symbol "withdraw", .address caller] [.u64 vaultId, .i128 v.balance])
        return .amount v.balance

/-- Every body is its checks and then the rest: the checks only read, and what
they let pass is run after them. -/
theorem dispatch_eq (env : Env Address) (call : Call Address) :
    dispatch env call = inspect (checks env call) >>= fun act => act := by
  cases call with
  | init token =>
      simp only [dispatch, init, checks, inspect_bind, inspect_read, inspect_refuse, inspect_pure,
        bind_assoc, pure_bind]
  | createVault owner name initialDeposit unlockTimestamp =>
      simp only [dispatch, createVault, requireAuth, checks, inspect_bind, inspect_refuse,
        inspect_pure, bind_assoc, pure_bind]
  | deposit caller vaultId amount =>
      simp only [dispatch, deposit, requireAuth, load, checks, inspect_bind, inspect_read,
        inspect_refuse, inspect_demand, inspect_pure, bind_assoc, pure_bind]
  | extendLock caller vaultId additionalSeconds =>
      simp only [dispatch, extendLock, requireAuth, load, checks, inspect_bind, inspect_read,
        inspect_refuse, inspect_demand, inspect_pure, bind_assoc, pure_bind]
  | withdraw caller vaultId =>
      simp only [dispatch, withdraw, requireAuth, load, checks, inspect_bind, inspect_read,
        inspect_refuse, inspect_demand, inspect_pure, bind_assoc, pure_bind]

namespace Errorless

/-- A transfer comes after the checks, and what it can still raise is a trap of
the token and no error code of the contract. -/
theorem transfer (env : Env Address) (t : Transfer Address) : Errorless (transfer env t) :=
  bind get fun _ => bind (refuseIf _ _) fun _ => modify _

theorem pull (env : Env Address) (source : Address) (amount : I128) :
    Errorless (pull env source amount) :=
  bind token fun _ => transfer env _

theorem push (env : Env Address) (destination : Address) (amount : I128) :
    Errorless (push env destination amount) :=
  bind token fun _ => transfer env _

end Errorless

/-- Money moves into the contract without touching its storage. -/
theorem pull_storage {env : Env Address} {source : Address} {amount : I128} {h h' : Host Address}
    {u : PUnit} (hRun : EStateM.run (pull env source amount) h = .ok u h') :
    h'.storage = h.storage := by
  have hBind : EStateM.run (pull env source amount >>= fun _ => (Pure.pure ⟨⟩ : Contract Address PUnit))
      h = .ok ⟨⟩ h' := by
    rw [EStateM.run_bind, hRun]
    rfl
  obtain ⟨token, _, _, hRest⟩ := pull_bind_ok.mp hBind
  rw [(run_pure_ok.mp hRest).2]
  rfl

/-- The counter of ids is used up only at its greatest value, the one case in
which an entry point raises a contract error after an effect. -/
theorem checkedAdd_one_eq_none {id : UInt64} (h : id.checkedAdd 1 = none) :
    id.toNat = 2 ^ 64 - 1 := by
  have hBound := id.toNat_lt
  unfold UInt64.checkedAdd at h
  split at h
  · cases h
  · next hFull =>
      have hOne : (1 : UInt64).toNat = 1 := rfl
      rw [hOne] at hFull
      unfold UInt64.size at hFull
      omega

/-- After its checks only `create_vault` can end in an `Error`, for want of an
identifier. -/
theorem error_after_checks {env : Env Address} {call : Call Address} {h h' : Host Address}
    {act : Contract Address Reply} {e : Error} (hChecks : checks env call h = .ok act)
    (hRun : EStateM.run act h = .error (.error e) h') :
    (∃ owner name deposit unlock, call = .createVault owner name deposit unlock) ∧
      h.storage.nextId.map UInt64.toNat = some (2 ^ 64 - 1) := by
  cases call with
  | init token =>
      simp only [checks, read_bind, refuse_bind_ok, reader_pure_ok] at hChecks
      rw [hChecks.2] at hRun
      exact absurd hRun (Errorless.bind (.modify _) (fun _ => .bind (.modify _) fun _ => .pure _) h e h')
  | createVault owner name initialDeposit unlockTimestamp =>
      refine ⟨⟨owner, name, initialDeposit, unlockTimestamp, rfl⟩, ?_⟩
      simp only [checks, refuse_bind_ok, reader_pure_ok] at hChecks
      rw [hChecks.2.2.2] at hRun
      rcases run_bind_error.mp hRun with hPull | ⟨_, paid, hPull, hRest⟩
      · exact absurd hPull (Errorless.pull env owner initialDeposit h e h')
      · rw [run_get_bind] at hRest
        rcases run_bind_error.mp hRest with hNext | ⟨_, _, _, hRest⟩
        · have hStorage := pull_storage hPull
          rw [hStorage] at hNext
          cases hAdd : (h.storage.nextId.getD 0).checkedAdd 1 with
          | some next =>
              rw [hAdd] at hNext
              cases hNext
          | none =>
              have hFull := checkedAdd_one_eq_none hAdd
              cases hId : h.storage.nextId with
              | none =>
                  rw [hId] at hFull
                  cases hFull
              | some id =>
                  rw [hId] at hFull
                  exact congrArg some hFull
        · exact absurd hRest (Errorless.bind (.modify _) (fun _ => .bind (.modify _) fun _ =>
            .bind .get fun _ => .bind (.modify _) fun _ => .bind (.modify _) fun _ => .pure _) _ e h')
  | deposit caller vaultId amount =>
      simp only [checks, read_bind, refuse_bind_ok, demand_bind_ok, reader_pure_ok] at hChecks
      obtain ⟨_, _, v, _, _, _, rfl⟩ := hChecks
      exact absurd hRun (Errorless.bind (.pull _ _ _) (fun _ => .bind (.orFail _ _) fun _ =>
        .bind (.modify _) fun _ => .bind (.modify _) fun _ => .pure _) h e h')
  | extendLock caller vaultId additionalSeconds =>
      simp only [checks, read_bind, refuse_bind_ok, demand_bind_ok, reader_pure_ok] at hChecks
      obtain ⟨_, _, v, _, _, _, unlockTimestamp, _, rfl⟩ := hChecks
      exact absurd hRun (Errorless.bind (.modify _) (fun _ => .bind (.modify _) fun _ => .pure _) h e h')
  | withdraw caller vaultId =>
      simp only [checks, read_bind, refuse_bind_ok, demand_bind_ok, reader_pure_ok] at hChecks
      obtain ⟨_, v, _, _, _, _, rfl⟩ := hChecks
      exact absurd hRun (Errorless.bind (.modify _) (fun _ => .bind (.push _ _ _) fun _ =>
        .bind (.modify _) fun _ => .pure _) h e h')

/-- In every reachable state a call that ends in an `Error` has failed one of
its checks, which can only read: nothing has been written, transferred or
published. The one exception is `create_vault` without a free identifier. -/
theorem checks_before_effects {contract : Address} (g : Genesis contract)
    (as : List (Action contract)) (auth : Authorisation contract) (client : TokenClient Address)
    (call : Call Address) (e : Error) (h : Host Address)
    (hRun : EStateM.run (dispatch ⟨contract, (final (step contract) g.world as).now, auth.grants,
      client⟩ call) (final (step contract) g.world as).host = .error (.error e) h) :
    let w := final (step contract) g.world as
    let env : Env Address := ⟨contract, w.now, auth.grants, client⟩
    (dispatch env call = inspect (checks env call) >>= fun act => act) ∧
    ((checks env call w.host = .error (.error e) ∧ h = w.host) ∨
      (∃ owner name deposit unlock, call = .createVault owner name deposit unlock) ∧
        w.storage.nextId.map UInt64.toNat = some (2 ^ 64 - 1)) := by
  intro w env
  refine ⟨dispatch_eq env call, ?_⟩
  rw [dispatch_eq] at hRun
  rcases run_inspect_bind_error.mp hRun with hChecked | ⟨act, hPassed, hActed⟩
  · exact Or.inl hChecked
  · exact Or.inr (error_after_checks hPassed hActed)

/-- A deposit into a vault that does not exist. -/
theorem checks_before_effects_sample :
    let w := final (step (0 : Nat)) sampleGenesis.world sampleRun
    checks ⟨0, w.now, everyone.grants, willing⟩ (.deposit 7 5 ⟨1, by decide, by decide⟩) w.host =
      .error (.error .vaultNotFound) := by
  intro w
  have hEnded := (checks_before_effects sampleGenesis sampleRun everyone willing
    (.deposit 7 5 ⟨1, by decide, by decide⟩) .vaultNotFound w.host rfl).2
  rcases hEnded with ⟨hChecks, _⟩ | ⟨⟨_, _, _, _, hCreate⟩, _⟩
  · exact hChecks
  · cases hCreate

end XlmVault
