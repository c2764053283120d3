import StellarTimelock.Contract.Lifecycle
import Mathlib.Algebra.Ring.Int.Defs
import Mathlib.Algebra.Ring.Nat
import Mathlib.Data.FinEnum

/-! The contract's token balance covers its books exactly, and therefore every
due withdrawal is paid. -/
namespace XlmVault

open Execution Transaction

variable {Address : Type} {contract : Address}

/-- The sum of `balance` over all stored vaults. -/
def Storage.locked (s : Storage Address) : Int := storeTotal (fun v => v.balance.val) s.vault

/-- Recording a vault changes the books by the difference to its old value. -/
theorem locked_putVault (w : World Address) (id : UInt64) (v : Vault Address) :
    (w.putVault id v).storage.locked =
      w.storage.locked - (w.storage.vault id).elim 0 (fun v => v.balance.val) + v.balance.val :=
  storeTotal_update (fun v : Vault Address => v.balance.val) w.storage.vault id v

/-- Before `init` nothing is locked, for there is no vault. -/
theorem locked_of_unset {s : Storage Address} (h : Allocated s) (hUnset : s.token = none) :
    s.locked = 0 := by
  have hEmpty : s.vault = fun _ => none := funext (h.unset hUnset).2.1
  rw [Storage.locked, hEmpty]
  exact storeTotal_empty _

/-- A sound world's books are at least as large as any one vault in them. -/
theorem World.Sound.balance_le_locked {w : World Address} (h : w.Sound) {id : UInt64}
    {v : Vault Address} (hVault : w.storage.vault id = some v) :
    v.balance.val ≤ w.storage.locked :=
  measure_le_storeTotal (fun v : Vault Address => v.balance.val) w.storage.vault
    (fun k u hu => (h.wellFormed k u hu).balance_nonneg) hVault

variable [DecidableEq Address]

/-- What one observed step sent to the contract from outside, in one token. -/
def Observation.sentDirectly (token : Address) : Observation contract → Int
  | .moved t => if t.token = token ∧ t.destination = contract then t.amount else 0
  | _ => 0

/-- What outsiders have transferred directly to the contract's address. -/
def directTransfers (token : Address) (past : List (Observation contract)) : Int :=
  (past.map (Observation.sentDirectly token)).sum

/-- What an action adds to the direct transfers of a token is what it sent to
the contract without an entry point of it. -/
theorem directTransfers_concat (token : Address) (past : List (Observation contract))
    (o : Observation contract) :
    directTransfers token (past ++ [o]) = directTransfers token past + o.sentDirectly token := by
  simp [directTransfers]

theorem directTransfers_nonneg (token : Address) (past : List (Observation contract)) :
    0 ≤ directTransfers token past := by
  induction past with
  | nil => exact Int.le_refl 0
  | cons o past ih =>
      have hHead : 0 ≤ o.sentDirectly token := by
        cases o with
        | invoked => exact Int.le_refl 0
        | advanced => exact Int.le_refl 0
        | moved t =>
            simp only [Observation.sentDirectly]
            split_ifs <;> omega
      simp only [directTransfers, List.map_cons, List.sum_cons] at ih ⊢
      omega

/-- The books of one token: the locked total if it is the configured one. -/
def Storage.booked (s : Storage Address) (token : Address) : Int :=
  if s.token = some token then s.locked else 0

/-- In every token, the contract's balance is what its books say plus what
outsiders have sent it. -/
def Solvent (past : List (Observation contract)) (w : World Address) : Prop :=
  ∀ token, w.ledger token contract = w.storage.booked token + directTransfers token past

/-- A contract that has just been deployed is solvent: it locks nothing and
holds nothing. -/
theorem Solvent.genesis (g : Genesis contract) : Solvent ([] : List (Observation contract)) g.world := by
  intro token
  have hBooked : g.world.storage.booked token = 0 := by simp [Storage.booked, Genesis.world]
  rw [hBooked]
  exact g.unfunded token

/-- A transfer that accompanies a change of the configured token's books by
the same amount keeps the contract solvent. -/
theorem Solvent.settle {past : List (Observation contract)} {w : World Address}
    {s : Storage Address} {l : Ledger Address Address} {now : UInt64}
    {o : Observation contract} {configured : Address} (change : Int) (h : Solvent past w)
    (hToken : w.storage.token = some configured) (hToken' : s.token = some configured)
    (hLocked : s.locked = w.storage.locked + change)
    (hLedger : ∀ token, l token contract =
      w.ledger token contract + if token = configured then change else 0)
    (hDirect : ∀ token, o.sentDirectly token = 0) :
    Solvent (past ++ [o]) { storage := s, ledger := l, now } := by
  intro token
  simp only
  rw [hLedger, directTransfers_concat, hDirect, h token, Storage.booked, Storage.booked, hToken,
    hToken', hLocked]
  by_cases ht : token = configured
  · simp only [ht, if_true]
    omega
  · simp [ht, Ne.symm ht]

/-- A transfer from someone else to the contract adds its amount to what the
contract holds of the configured token, and to nothing of any other token. -/
theorem ledger_pull {l : Ledger Address Address} {configured source : Address} {amount : Int}
    (hSource : source ≠ contract) (token : Address) :
    l.move configured source contract amount token contract =
      l token contract + if token = configured then amount else 0 := by
  by_cases ht : token = configured
  · subst ht
    rw [Ledger.move_destination l token amount hSource, if_pos rfl]
  · rw [Ledger.move_other_token l source contract contract amount ht, if_neg ht, Int.add_zero]

/-- A transfer of the contract to someone else takes its amount from what the
contract holds of the configured token, and from nothing of any other token. -/
theorem ledger_push {l : Ledger Address Address} {configured destination : Address} {amount : Int}
    (hDestination : destination ≠ contract) (token : Address) :
    l.move configured contract destination amount token contract =
      l token contract + if token = configured then -amount else 0 := by
  by_cases ht : token = configured
  · subst ht
    rw [Ledger.move_source l token amount hDestination.symm, if_pos rfl, Int.sub_eq_add_neg]
  · rw [Ledger.move_other_token l contract destination contract amount ht, if_neg ht, Int.add_zero]

/-- Each of the effects that an action can have keeps the contract solvent. A
create and a deposit add the same amount to both sides, a withdrawal takes it
from both. -/
theorem Solvent.effect {past : List (Observation contract)} {w w' : World Address}
    {o : Observation contract} (h : Solvent past w) (hAllocated : Allocated w.storage)
    (hEffect : Effect contract w w' o) : Solvent (past ++ [o]) w' := by
  -- A step that observes no direct transfer and touches no balance.
  have hQuiet (o : Observation contract) (hDirect : ∀ token, o.sentDirectly token = 0) :
      ∀ token, w.ledger token contract =
        w.storage.booked token + directTransfers token (past ++ [o]) := by
    intro token
    rw [directTransfers_concat, hDirect, Int.add_zero]
    exact h token
  cases hEffect with
  | failed => exact hQuiet _ (fun _ => rfl)
  | initialised token hUnset =>
      intro t
      have hBefore : w.storage.booked t = 0 := by simp [Storage.booked, hUnset]
      have hLocked : (w.initialise token).storage.locked = 0 :=
        (rfl : _ = w.storage.locked).trans (locked_of_unset hAllocated hUnset)
      have hAfter : (w.initialise token).storage.booked t = 0 := by
        simp [Storage.booked, hLocked]
      rw [hAfter, ← hBefore]
      exact hQuiet _ (fun _ => rfl) t
  | created token owner name d u id next hOwner hAmount hTime hToken hId =>
      refine Solvent.settle d.val h hToken hToken ?_ (ledger_pull hOwner) (fun _ => rfl)
      have hFresh : w.storage.vault id = none := by
        rw [hId]
        exact hAllocated.fresh hToken
      have hPut := locked_putVault (w.allocate owner id next) id ⟨id, owner, name, d, u, w.now, false⟩
      have hNone : (w.allocate owner id next).storage.vault id = none := hFresh
      have hSame : (w.allocate owner id next).storage.locked = w.storage.locked := rfl
      rw [hNone, hSame, Option.elim_none, Int.sub_zero] at hPut
      exact hPut
  | deposited token caller vaultId amount balance v hCaller hAmount hVault hOwner hLive hToken
      hBalance =>
      refine Solvent.settle amount.val h hToken hToken ?_ (ledger_pull hCaller) (fun _ => rfl)
      have hSum := I128.checkedAdd_eq_some.mp hBalance
      have hPut := locked_putVault w vaultId { v with balance }
      simp only [hVault, Option.elim_some] at hPut
      omega
  | extended caller vaultId seconds u v hSeconds hVault =>
      have hPut := locked_putVault w vaultId { v with unlockTimestamp := u }
      rw [hVault, Option.elim_some] at hPut
      have hBooked (t : Address) :
          (w.putVault vaultId { v with unlockTimestamp := u }).storage.booked t =
            w.storage.booked t := by
        unfold Storage.booked
        rw [hPut, Int.sub_add_cancel]
        rfl
      intro t
      rw [hBooked]
      exact hQuiet _ (fun _ => rfl) t
  | withdrawn token caller vaultId v hCaller hVault hOwner hLive hTime hToken =>
      refine Solvent.settle (-v.balance.val) h hToken hToken ?_ (ledger_push hCaller)
        (fun _ => rfl)
      have hPut := locked_putVault w vaultId { v with balance := 0, withdrawn := true }
      rw [hVault, Option.elim_some, I128.val_zero] at hPut
      omega
  | advanced => exact hQuiet _ (fun _ => rfl)
  | outside t =>
      intro token
      rw [directTransfers_concat, ← Int.add_assoc, ← h token]
      unfold Observation.sentDirectly
      by_cases hDestination : t.destination = contract
      · simp only [hDestination]
        rw [ledger_pull t.foreign]
        by_cases ht : token = t.token
        · simp [ht]
        · simp [ht, Ne.symm ht]
      · simp only [hDestination, and_false, if_false, Int.add_zero]
        exact Ledger.move_bystander w.ledger t.token token t.amount (Ne.symm t.foreign)
          (Ne.symm hDestination)

/-- Every reachable state is solvent, by induction over the run that leads
there. -/
theorem Solvent.reachable (g : Genesis contract) (as : List (Action contract)) :
    Solvent (trace (step contract) g.world as) (final (step contract) g.world as) :=
  (history_invariant (step contract) (fun past w => Allocated w.storage ∧ Solvent past w)
    ⟨Allocated.genesis g, Solvent.genesis g⟩
    (fun _ w a h => ⟨h.1.effect (step_effect contract w a), h.2.effect h.1
      (step_effect contract w a)⟩) as).2

/-- The equation that solvency states, for the token that `init` has configured.
-/
theorem Solvent.ledger_eq {past : List (Observation contract)} {w : World Address}
    (h : Solvent past w) {token : Address} (hToken : w.storage.token = some token) :
    w.ledger token contract = w.storage.locked + directTransfers token past := by
  have hBalance := h token
  rw [Storage.booked, if_pos hToken] at hBalance
  exact hBalance

/-- After `init`, the contract's balance in the configured token is exactly
the sum of all stored balances plus what outsiders transferred to it. -/
theorem reachable_solvency (g : Genesis contract) (as : List (Action contract))
    (token : Address) (hToken : (final (step contract) g.world as).storage.token = some token) :
    (final (step contract) g.world as).ledger token contract =
      (final (step contract) g.world as).storage.locked +
        directTransfers token (trace (step contract) g.world as) :=
  (Solvent.reachable g as).ledger_eq hToken

/-- Calls to a contract at address 0 that every other address authorises. -/
def everyone : Authorisation (0 : Nat) := ⟨fun a => a != 0, rfl⟩

/-- A token that never traps. -/
def willing : TokenClient Nat := ⟨fun _ _ => true⟩

/-- A first run of the contract at address 0: address 7 sets the token 1, locks
500 for a day, tops up with 20, and address 8 sends 3 directly. -/
def sampleRun : List (Action (0 : Nat)) :=
  [.invoke everyone willing (.init 1),
    .invoke everyone willing (.createVault 7 "Rent" ⟨500, by decide, by decide⟩ 86400),
    .invoke everyone willing (.deposit 7 0 ⟨20, by decide, by decide⟩),
    .outside ⟨1, 8, 0, 3, by decide⟩]

/-- Nobody holds anything at time 0. -/
def sampleGenesis : Genesis (0 : Nat) := ⟨fun _ _ => 0, 0, fun _ => rfl⟩

theorem reachable_solvency_sample :
    (final (step (0 : Nat)) sampleGenesis.world sampleRun).ledger 1 0 =
      (final (step (0 : Nat)) sampleGenesis.world sampleRun).storage.locked +
        directTransfers 1 (trace (step (0 : Nat)) sampleGenesis.world sampleRun) :=
  reachable_solvency sampleGenesis sampleRun 1 (by decide)

/-- A live vault never holds more than the contract can pay out. -/
theorem balance_le_ledger (g : Genesis contract) (as : List (Action contract)) {id : UInt64}
    {v : Vault Address} {token : Address}
    (hVault : (final (step contract) g.world as).storage.vault id = some v)
    (hToken : (final (step contract) g.world as).storage.token = some token) :
    v.balance.val ≤ (final (step contract) g.world as).ledger token contract := by
  have hLocked := (World.Sound.reachable g as).balance_le_locked hVault
  have hDirect := directTransfers_nonneg token (trace (step contract) g.world as)
  rw [(Solvent.reachable g as).ledger_eq hToken]
  omega

/-- A dispatched withdrawal succeeds if and only if the body of `withdraw` does,
and it replies with the amount that the body returns. -/
theorem dispatch_withdraw_ok {env : Env Address} {caller : Address} {id : UInt64} {reply : Reply}
    {h h' : Host Address} : EStateM.run (dispatch env (.withdraw caller id)) h = .ok reply h' ↔
      ∃ amount, EStateM.run (withdraw env caller id) h = .ok amount h' ∧
        reply = .amount amount := by
  simp only [dispatch, run_bind_ok, run_pure_ok]
  constructor
  · rintro ⟨amount, _, hBody, rfl, rfl⟩
    exact ⟨amount, hBody, rfl⟩
  · rintro ⟨amount, hBody, rfl⟩
    exact ⟨amount, h', hBody, rfl, rfl⟩

/-- A withdrawal is observed to succeed exactly when its body does, and then
leaves the ledger of the body. -/
theorem withdraw_result {w : World Address} {auth : Authorisation contract}
    {client : TokenClient Address} {caller : Address} {id : UInt64} {amount : I128}
    {l : Ledger Address Address} :
    let outcome := step contract w (.invoke auth client (.withdraw caller id))
    outcome.2.result = some (.ok (.amount amount)) ∧ outcome.1.ledger = l ↔
      ∃ h, EStateM.run (withdraw ⟨contract, w.now, auth.grants, client⟩ caller id) w.host =
        .ok amount h ∧ h.ledger = l := by
  simp only [step, Observation.result, Option.some.injEq]
  unfold atomically
  constructor
  · rintro ⟨hResult, hLedger⟩
    split at hResult
    · next reply h hRun =>
        obtain ⟨a, hBody, rfl⟩ := dispatch_withdraw_ok.mp hRun
        cases hResult
        rw [hRun] at hLedger
        exact ⟨h, hBody, hLedger⟩
    · cases hResult
  · rintro ⟨h, hBody, hLedger⟩
    rw [dispatch_withdraw_ok.mpr ⟨amount, hBody, rfl⟩]
    exact ⟨rfl, hLedger⟩

/-- In every reachable state an authorised withdrawal succeeds exactly for the
owner of a stored, unlocked vault that is not withdrawn. It then returns the
stored balance, which is positive, and the owner receives exactly that. The
token is only assumed to honour positive transfers out of the contract that
the contract's balance covers; that balance covers every stored vault. -/
theorem withdraw_succeeds_iff (g : Genesis contract) (as : List (Action contract))
    (auth : Authorisation contract) (client : TokenClient Address) (caller : Address)
    (id : UInt64) (hAuth : auth.grants caller = true)
    (hPays : ∀ l (t : Transfer Address), t.source = contract → 0 < t.amount.val →
      t.amount.val ≤ l t.token contract → client.accepts l t = true) :
    let w := final (step contract) g.world as
    let outcome := step contract w (.invoke auth client (.withdraw caller id))
    ((∃ amount, outcome.2.result = some (.ok (.amount amount))) ↔
      ∃ v, w.storage.vault id = some v ∧ v.owner = caller ∧ v.withdrawn = false ∧
        v.unlockTimestamp ≤ w.now) ∧
    (∀ amount, outcome.2.result = some (.ok (.amount amount)) →
      ∃ v token, w.storage.vault id = some v ∧ w.storage.token = some token ∧
        amount = v.balance ∧ 0 < v.balance.val ∧
        outcome.1.ledger token caller = w.ledger token caller + amount.val) ∧
    ∀ k v token, w.storage.vault k = some v → w.storage.token = some token →
      v.balance.val ≤ w.ledger token contract := by
  intro w outcome
  have hSound : w.Sound := World.Sound.reachable g as
  refine ⟨⟨?_, ?_⟩, ?_, fun k v token hVault hToken => balance_le_ledger g as hVault hToken⟩
  · rintro ⟨amount, hResult⟩
    obtain ⟨h, hBody, _⟩ := withdraw_result.mp ⟨hResult, rfl⟩
    obtain ⟨_, v, hVault, hOwner, hLive, hTime, _⟩ := withdraw_ok.mp hBody
    exact ⟨v, hVault, hOwner, hLive, hTime⟩
  · rintro ⟨v, hVault, hOwner, hLive, hTime⟩
    obtain ⟨token, hToken⟩ := hSound.allocated.vault_token hVault
    have hAccepts : client.accepts w.ledger ⟨token, contract, caller, v.balance⟩ = true :=
      hPays _ _ rfl ((hSound.wellFormed id v hVault).balance_pos hLive)
        (balance_le_ledger g as hVault hToken)
    have hBody : EStateM.run (withdraw ⟨contract, w.now, auth.grants, client⟩ caller id) w.host =
        .ok v.balance _ :=
      withdraw_ok.mpr ⟨hAuth, v, hVault, hOwner, hLive, hTime, token, hToken, hAccepts, rfl, rfl⟩
    exact ⟨v.balance, (withdraw_result.mpr ⟨_, hBody, rfl⟩).1⟩
  · intro amount hResult
    obtain ⟨h, hBody, hLedger⟩ := withdraw_result.mp ⟨hResult, rfl⟩
    obtain ⟨_, v, hVault, hOwner, hLive, hTime, token, hToken, _, rfl, rfl⟩ :=
      withdraw_ok.mp hBody
    refine ⟨v, token, hVault, hToken, rfl,
      (hSound.wellFormed id v hVault).balance_pos hLive, ?_⟩
    rw [← hLedger]
    exact Ledger.move_destination w.ledger token v.balance.val (auth.ne_contract hAuth).symm

/-- A token that pays whatever the balance of the source covers. -/
def payingClient : TokenClient Nat := ⟨fun l t => decide (t.amount.val ≤ l t.token t.source)⟩

/-- A day later the owner withdraws the deposit and the top-up. -/
theorem withdraw_succeeds_iff_sample :
    let w := final (step (0 : Nat)) sampleGenesis.world (sampleRun ++ [.advance 90000])
    ∃ amount, (step (0 : Nat) w
      (.invoke ⟨fun a => a == 7, rfl⟩ payingClient (.withdraw 7 0))).2.result =
        some (.ok (.amount amount)) := by
  have hPays : ∀ (l : Ledger Nat Nat) (t : Transfer Nat), t.source = 0 → 0 < t.amount.val →
      t.amount.val ≤ l t.token 0 → payingClient.accepts l t = true := by
    intro l t hSource _ hCovered
    show decide (t.amount.val ≤ l t.token t.source) = true
    rw [hSource]
    exact decide_eq_true hCovered
  have hVault : (final (step (0 : Nat)) sampleGenesis.world
      (sampleRun ++ [.advance 90000])).storage.vault 0 =
        some ⟨0, 7, "Rent", ⟨520, by decide, by decide⟩, 86400, 0, false⟩ := by decide
  have hTime : (86400 : UInt64) ≤ (final (step (0 : Nat)) sampleGenesis.world
      (sampleRun ++ [.advance 90000])).now := by decide
  have hIff := withdraw_succeeds_iff sampleGenesis (sampleRun ++ [.advance 90000])
    ⟨fun a => a == 7, rfl⟩ payingClient 7 0 rfl hPays
  exact hIff.1.mpr ⟨_, hVault, rfl, rfl, hTime⟩

end XlmVault
