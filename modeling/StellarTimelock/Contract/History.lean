import StellarTimelock.Contract.Solvency

/-! Every payment the contract makes, accounted for by the history before it. -/
namespace XlmVault

open Execution

variable {Address : Type} {contract : Address}

/-- The seconds by which a successful `extend_lock` moves a vault's lock. -/
def Receipt.extendedBy (id : UInt64) (r : Receipt Address) : Nat :=
  match r.call, r.result with
  | .extendLock _ vaultId additionalSeconds, .ok _ =>
      if vaultId = id then additionalSeconds.toNat else 0
  | _, _ => 0

/-- The amount a successful `deposit` adds to a vault. -/
def Receipt.depositedInto (id : UInt64) (r : Receipt Address) : Int :=
  match r.call, r.result with
  | .deposit _ vaultId amount, .ok _ => if vaultId = id then amount.val else 0
  | _, _ => 0

/-- The receipt is of a successful `withdraw` from the vault. -/
def Receipt.withdraws (id : UInt64) (r : Receipt Address) : Bool :=
  match r.call, r.result with
  | .withdraw _ vaultId, .ok _ => vaultId = id
  | _, _ => false

/-- The receipts of a history, oldest first. -/
def receipts (past : List (Observation contract)) : List (Receipt Address) :=
  past.filterMap fun
    | .invoked r => some r
    | _ => none

/-- The total of all successful extensions of a vault's lock. -/
def extensions (past : List (Receipt Address)) (id : UInt64) : Nat :=
  (past.map (Receipt.extendedBy id)).sum

/-- The total of all successful deposits into a vault after its creation. -/
def deposits (past : List (Receipt Address)) (id : UInt64) : Int :=
  (past.map (Receipt.depositedInto id)).sum

/-- Some `withdraw` from the vault has succeeded. -/
def Withdrawn (past : List (Receipt Address)) (id : UInt64) : Prop :=
  ∃ r ∈ past, r.withdraws id = true

/-- A successful `create_vault` with these arguments returned the id. -/
def Created (past : List (Receipt Address)) (id : UInt64) (owner : Address) (name : String)
    (initialDeposit : I128) (unlockTimestamp : UInt64) : Prop :=
  ∃ r ∈ past, r.call = .createVault owner name initialDeposit unlockTimestamp ∧
    r.result = .ok (.id id)

/-- What the receipts say about a stored vault. -/
structure Vault.Recorded (past : List (Receipt Address)) (id : UInt64) (v : Vault Address) :
    Prop where
  origin : ∃ initialDeposit unlockTimestamp,
    Created past id v.owner v.name initialDeposit unlockTimestamp ∧
    v.unlockTimestamp.toNat = unlockTimestamp.toNat + extensions past id ∧
    (v.withdrawn = false → v.balance.val = initialDeposit.val + deposits past id)
  live : v.withdrawn = false → ¬ Withdrawn past id

/-- The receipts account for every stored vault and concern no other. -/
structure Recorded (past : List (Receipt Address)) (w : World Address) : Prop where
  stored : ∀ id v, w.storage.vault id = some v → v.Recorded past id
  untouched : ∀ id, w.storage.vault id = none →
    extensions past id = 0 ∧ deposits past id = 0 ∧ ¬ Withdrawn past id

section Concat

variable {past : List (Receipt Address)} {r : Receipt Address} {id : UInt64}

/-- One more receipt adds what it extends to the extensions of a vault. -/
theorem extensions_concat :
    extensions (past ++ [r]) id = extensions past id + r.extendedBy id := by
  simp [extensions]

/-- One more receipt adds what it pays in to the deposits of a vault. -/
theorem deposits_concat :
    deposits (past ++ [r]) id = deposits past id + r.depositedInto id := by
  simp [deposits]

/-- A vault that has not been withdrawn stays so through receipts that do not
withdraw it. -/
theorem not_withdrawn_concat (h : ¬ Withdrawn past id) (hr : r.withdraws id = false) :
    ¬ Withdrawn (past ++ [r]) id := by
  rintro ⟨s, hs, hWithdraws⟩
  rcases List.mem_append.mp hs with hPast | hLast
  · exact h ⟨s, hPast, hWithdraws⟩
  · rw [List.mem_singleton.mp hLast, hr] at hWithdraws
    cases hWithdraws

theorem Created.concat {owner : Address} {name : String} {d : I128} {u : UInt64}
    (h : Created past id owner name d u) : Created (past ++ [r]) id owner name d u := by
  obtain ⟨s, hs, hCall, hResult⟩ := h
  exact ⟨s, List.mem_append_left [r] hs, hCall, hResult⟩

/-- A receipt that does not concern the vault leaves its record as it is. -/
theorem Vault.Recorded.concat {v : Vault Address} (h : v.Recorded past id)
    (hExtend : r.extendedBy id = 0) (hDeposit : r.depositedInto id = 0)
    (hWithdraw : r.withdraws id = false) : v.Recorded (past ++ [r]) id := by
  obtain ⟨⟨d, u, hCreated, hUnlock, hBalance⟩, hLive⟩ := h
  refine ⟨⟨d, u, hCreated.concat, ?_, ?_⟩, ?_⟩
  · rw [extensions_concat, hExtend, Nat.add_zero]
    exact hUnlock
  · rw [deposits_concat, hDeposit, Int.add_zero]
    exact hBalance
  · intro hStill
    exact not_withdrawn_concat (hLive hStill) hWithdraw

end Concat

/-- A receipt that concerns no vault keeps the record of unchanged vaults. -/
theorem Recorded.quiet {past : List (Receipt Address)} {w w' : World Address}
    (h : Recorded past w) (r : Receipt Address) (hSame : w'.storage.vault = w.storage.vault)
    (hQuiet : ∀ id, r.extendedBy id = 0 ∧ r.depositedInto id = 0 ∧ r.withdraws id = false) :
    Recorded (past ++ [r]) w' := by
  constructor
  · intro id v hVault
    rw [hSame] at hVault
    obtain ⟨hExtend, hDeposit, hWithdraw⟩ := hQuiet id
    exact (h.stored id v hVault).concat hExtend hDeposit hWithdraw
  · intro id hVault
    rw [hSame] at hVault
    obtain ⟨hExtend, hDeposit, hWithdraw⟩ := hQuiet id
    obtain ⟨hExtensions, hDeposits, hNot⟩ := h.untouched id hVault
    rw [extensions_concat, deposits_concat, hExtensions, hDeposits, hExtend, hDeposit]
    exact ⟨rfl, rfl, not_withdrawn_concat hNot hWithdraw⟩

/-- A receipt that concerns the one vault it writes keeps the record if that
vault is recorded afterwards. -/
theorem Recorded.write {past : List (Receipt Address)} {w w' : World Address}
    (h : Recorded past w) (r : Receipt Address) {id : UInt64} {v : Vault Address}
    (hWritten : w'.storage.vault = Function.update w.storage.vault id (some v))
    (hOther : ∀ k, k ≠ id → r.extendedBy k = 0 ∧ r.depositedInto k = 0 ∧ r.withdraws k = false)
    (hSelf : v.Recorded (past ++ [r]) id) : Recorded (past ++ [r]) w' := by
  constructor
  · intro k u hu
    rw [hWritten] at hu
    by_cases hk : k = id
    · subst hk
      rw [Function.update_self, Option.some.injEq] at hu
      rw [← hu]
      exact hSelf
    · rw [Function.update_of_ne hk] at hu
      obtain ⟨hExtend, hDeposit, hWithdraw⟩ := hOther k hk
      exact (h.stored k u hu).concat hExtend hDeposit hWithdraw
  · intro k hu
    rw [hWritten] at hu
    by_cases hk : k = id
    · rw [hk, Function.update_self] at hu
      cases hu
    · rw [Function.update_of_ne hk] at hu
      obtain ⟨hExtend, hDeposit, hWithdraw⟩ := hOther k hk
      obtain ⟨hExtensions, hDeposits, hNot⟩ := h.untouched k hu
      rw [extensions_concat, deposits_concat, hExtensions, hDeposits, hExtend, hDeposit]
      exact ⟨rfl, rfl, not_withdrawn_concat hNot hWithdraw⟩

/-- At the start there is no vault and nothing has been paid out, so the record
is complete. -/
theorem Recorded.genesis (g : Genesis contract) : Recorded [] g.world where
  stored id v hVault := by cases hVault
  untouched id _ := by simp [extensions, deposits, Withdrawn]

@[simp] theorem receipts_invoked (past : List (Observation contract)) (r : Receipt Address) :
    receipts (past ++ [.invoked r]) = receipts past ++ [r] := by
  simp [receipts]

@[simp] theorem receipts_advanced (past : List (Observation contract)) (timestamp : UInt64) :
    receipts (past ++ [.advanced timestamp]) = receipts past := by
  simp [receipts]

@[simp] theorem receipts_moved (past : List (Observation contract)) (t : OutsideTransfer contract) :
    receipts (past ++ [.moved t]) = receipts past := by
  simp [receipts]

variable [DecidableEq Address]

/-- Each of the effects that an action can have keeps the record: what the
receipts say of a vault is what is stored of it. -/
theorem Recorded.effect {past : List (Observation contract)} {w w' : World Address}
    {o : Observation contract} (h : Recorded (receipts past) w) (hAllocated : Allocated w.storage)
    (hEffect : Effect contract w w' o) : Recorded (receipts (past ++ [o])) w' := by
  cases hEffect with
  | failed call failure =>
      rw [receipts_invoked]
      refine h.quiet _ rfl ?_
      intro id
      cases call <;> exact ⟨rfl, rfl, rfl⟩
  | initialised token =>
      rw [receipts_invoked]
      exact h.quiet _ rfl (fun _ => ⟨rfl, rfl, rfl⟩)
  | created token owner name d u id next hOwner hAmount hTime hToken hId =>
      have hFresh : w.storage.vault id = none := by
        rw [hId]
        exact hAllocated.fresh hToken
      obtain ⟨hExtensions, hDeposits, hNot⟩ := h.untouched id hFresh
      rw [receipts_invoked]
      refine h.write _ rfl (fun _ _ => ⟨rfl, rfl, rfl⟩) ⟨⟨d, u, ?_, ?_, ?_⟩, ?_⟩
      · exact ⟨_, List.mem_append_right _ (List.mem_singleton.mpr rfl), rfl, rfl⟩
      · rw [extensions_concat, hExtensions]
        rfl
      · intro _
        rw [deposits_concat, hDeposits]
        exact (Int.add_zero d.val).symm
      · intro _
        exact not_withdrawn_concat hNot rfl
  | deposited token caller vaultId amount balance v hCaller hAmount hVault hOwner hLive hToken
      hBalance =>
      obtain ⟨⟨d, u, hCreated, hUnlock, hOld⟩, hNot⟩ := h.stored vaultId v hVault
      have hSum := I128.checkedAdd_eq_some.mp hBalance
      have hBefore := hOld hLive
      rw [receipts_invoked]
      refine h.write _ rfl (fun k hk => ⟨rfl, if_neg hk.symm, rfl⟩)
        ⟨⟨d, u, hCreated.concat, ?_, ?_⟩, ?_⟩
      · rw [extensions_concat]
        exact hUnlock
      · intro _
        rw [deposits_concat]
        simp only [Receipt.depositedInto, if_true]
        omega
      · intro _
        exact not_withdrawn_concat (hNot hLive) rfl
  | extended caller vaultId seconds u v hSeconds hVault hOwner hLive hUnlock =>
      obtain ⟨⟨d, first, hCreated, hBefore, hOld⟩, hNot⟩ := h.stored vaultId v hVault
      have hSum := UInt64.checkedAdd_eq_some.mp hUnlock
      rw [receipts_invoked]
      refine h.write _ rfl (fun k hk => ⟨if_neg hk.symm, rfl, rfl⟩)
        ⟨⟨d, first, hCreated.concat, ?_, ?_⟩, ?_⟩
      · rw [extensions_concat]
        simp only [Receipt.extendedBy, if_true]
        omega
      · intro hStill
        rw [deposits_concat]
        have hSame := hOld hStill
        simp only [Receipt.depositedInto]
        omega
      · intro hStill
        exact not_withdrawn_concat (hNot hStill) rfl
  | withdrawn token caller vaultId v hCaller hVault hOwner hLive hTime hToken =>
      obtain ⟨⟨d, u, hCreated, hUnlock, _⟩, _⟩ := h.stored vaultId v hVault
      rw [receipts_invoked]
      refine h.write _ rfl (fun k hk => ⟨rfl, rfl, decide_eq_false hk.symm⟩)
        ⟨⟨d, u, hCreated.concat, ?_, ?_⟩, ?_⟩
      · rw [extensions_concat]
        exact hUnlock
      · intro hStill
        cases hStill
      · intro hStill
        cases hStill
  | advanced timestamp =>
      rw [receipts_advanced]
      exact ⟨h.stored, h.untouched⟩
  | outside t =>
      rw [receipts_moved]
      exact ⟨h.stored, h.untouched⟩

/-- In every run, what is stored of a vault is what the receipts of the run say
of it: by the step lemma and the induction over histories. -/
theorem Recorded.reachable (g : Genesis contract) (as : List (Action contract)) :
    Recorded (receipts (trace (step contract) g.world as)) (final (step contract) g.world as) :=
  (history_invariant (step contract)
    (fun past w => Allocated w.storage ∧ Recorded (receipts past) w)
    ⟨Allocated.genesis g, Recorded.genesis g⟩
    (fun _ w a h => ⟨h.1.effect (step_effect contract w a), h.2.effect h.1
      (step_effect contract w a)⟩) as).2

/-- An observed step moved an amount of a token from one address to another. -/
def Observation.Moves (o : Observation contract) (token source destination : Address)
    (amount : Int) : Prop :=
  match o with
  | .invoked r => ∃ t ∈ r.transfers, t.token = token ∧ t.source = source ∧
      t.destination = destination ∧ t.amount.val = amount
  | .advanced _ => False
  | .moved t => t.token = token ∧ t.source = source ∧ t.destination = destination ∧
      (t.amount : Int) = amount

/-- Only a withdrawal moves tokens out of the contract. It is the withdrawal of
a live and unlocked vault by its owner, and moves its whole balance there. -/
theorem withdrawn_of_moves {w w' : World Address} {o : Observation contract}
    (hEffect : Effect contract w w' o) {token destination : Address} {amount : Int}
    (hMoves : o.Moves token contract destination amount) :
    ∃ id v events, w.storage.vault id = some v ∧ v.owner = destination ∧ v.withdrawn = false ∧
      v.unlockTimestamp ≤ w.now ∧ v.balance.val = amount ∧
      o = .invoked ⟨.withdraw destination id, w.now, .ok (.amount v.balance),
        [⟨token, contract, destination, v.balance⟩], events⟩ := by
  cases hEffect with
  | failed =>
      obtain ⟨t, hMem, _⟩ := hMoves
      cases hMem
  | initialised =>
      obtain ⟨t, hMem, _⟩ := hMoves
      cases hMem
  | created token owner name d u id next hOwner =>
      obtain ⟨t, hMem, _, hSource, _⟩ := hMoves
      rw [List.mem_singleton.mp hMem] at hSource
      exact absurd hSource hOwner
  | deposited token caller vaultId amount balance v hCaller =>
      obtain ⟨t, hMem, _, hSource, _⟩ := hMoves
      rw [List.mem_singleton.mp hMem] at hSource
      exact absurd hSource hCaller
  | extended =>
      obtain ⟨t, hMem, _⟩ := hMoves
      cases hMem
  | withdrawn configured caller vaultId v hCaller hVault hOwner hLive hTime =>
      obtain ⟨t, hMem, hToken, _, hDestination, hAmount⟩ := hMoves
      rw [List.mem_singleton.mp hMem] at hToken hDestination hAmount
      subst hToken hDestination
      exact ⟨vaultId, v, _, hVault, hOwner, hLive, hTime, hAmount, rfl⟩
  | advanced => exact hMoves.elim
  | outside t => exact absurd hMoves.2.1 t.foreign

/-- Every transfer out of the contract, in every run, is the only transfer of
a successful withdrawal by the vault's owner. The vault was created earlier by
that owner, its lock and all extensions of it have passed, the amount is the
initial deposit and all later ones, and nothing was withdrawn from it before. -/
theorem payout_history (g : Genesis contract) (as : List (Action contract))
    (past future : List (Observation contract)) (o : Observation contract)
    (hTrace : trace (step contract) g.world as = past ++ o :: future)
    (token destination : Address) (amount : Int)
    (hMoves : o.Moves token contract destination amount) :
    ∃ caller id name initialDeposit unlockTimestamp r,
      o = .invoked r ∧ r.call = .withdraw caller id ∧
      (∃ paid, r.result = .ok (.amount paid) ∧ paid.val = amount ∧
        r.transfers = [⟨token, contract, caller, paid⟩]) ∧
      Created (receipts past) id caller name initialDeposit unlockTimestamp ∧
      unlockTimestamp.toNat + extensions (receipts past) id ≤ r.timestamp.toNat ∧
      amount = initialDeposit.val + deposits (receipts past) id ∧
      ¬ Withdrawn (receipts past) id := by
  obtain ⟨before, a, after, rfl, rfl, rfl⟩ := trace_split (step contract) hTrace
  obtain ⟨id, v, events, hVault, rfl, hLive, hTime, rfl, hObserved⟩ :=
    withdrawn_of_moves (step_effect contract _ a) hMoves
  have hRecorded := (Recorded.reachable g before).stored id v hVault
  obtain ⟨⟨d, u, hCreated, hUnlock, hBalance⟩, hNot⟩ := hRecorded
  refine ⟨v.owner, id, v.name, d, u, _, hObserved, rfl, ⟨v.balance, rfl, rfl, rfl⟩, hCreated, ?_,
    hBalance hLive, hNot hLive⟩
  rw [← hUnlock]
  exact UInt64.le_iff_toNat_le.mp hTime

/-- The sample deposit, topped up with 20, is paid out once its day is over. -/
theorem payout_history_sample :
    let past := trace (step (0 : Nat)) sampleGenesis.world (sampleRun ++ [.advance 90000])
    ∃ caller id name initialDeposit unlockTimestamp,
      Created (receipts past) id caller name initialDeposit unlockTimestamp ∧
      520 = initialDeposit.val + deposits (receipts past) id ∧ ¬ Withdrawn (receipts past) id := by
  intro past
  let withdrawal : Action (0 : Nat) := .invoke ⟨fun a => a == 7, rfl⟩ payingClient (.withdraw 7 0)
  have hTrace : trace (step (0 : Nat)) sampleGenesis.world
      ((sampleRun ++ [.advance 90000]) ++ [withdrawal]) = past ++ _ :: [] :=
    trace_concat (step (0 : Nat)) sampleGenesis.world _ withdrawal
  have hMoves : (step (0 : Nat) (final (step (0 : Nat)) sampleGenesis.world
      (sampleRun ++ [.advance 90000])) withdrawal).2.Moves 1 0 7 520 :=
    ⟨⟨1, 0, 7, ⟨520, by decide, by decide⟩⟩, by decide, rfl, rfl, rfl, rfl⟩
  obtain ⟨caller, id, name, d, u, r, _, _, _, hCreated, _, hAmount, hLive⟩ :=
    payout_history sampleGenesis _ past [] _ hTrace 1 7 520 hMoves
  exact ⟨caller, id, name, d, u, hCreated, hAmount, hLive⟩

end XlmVault
