import StellarTimelock.Contract.World

/-! Identifier allocation and the per-owner index: the counter, the stored
vaults and the owners' lists agree in every reachable state. -/
namespace XlmVault

open Execution

variable {Address : Type} {contract : Address}

/-- What `listOwned` answers on this storage. -/
def Storage.listOwned (s : Storage Address) (owner : Address) : List UInt64 :=
  (s.owned owner).getD []

/-- The token, the counter, the vault map and the index tell one story. -/
structure Allocated (s : Storage Address) : Prop where
  unset : s.token = none → s.nextId = none ∧ (∀ id, s.vault id = none) ∧ ∀ a, s.owned a = none
  counted : ∀ token, s.token = some token →
    ∃ n, s.nextId = some n ∧ ∀ id, (s.vault id).isSome ↔ id < n
  keyed : ∀ id v, s.vault id = some v → v.vaultId = id
  increasing : ∀ a, (s.listOwned a).Pairwise (· < ·)
  indexed : ∀ a id, id ∈ s.listOwned a ↔ ∃ v, s.vault id = some v ∧ v.owner = a

namespace Allocated

theorem genesis (g : Genesis contract) : Allocated g.world.storage where
  unset _ := ⟨rfl, fun _ => rfl, fun _ => rfl⟩
  counted token h := by cases h
  keyed id v h := by cases h
  increasing a := by simp [Genesis.world, Storage.listOwned]
  indexed a id := by simp [Genesis.world, Storage.listOwned]

/-- The next identifier is never in use: every stored one lies below it. -/
theorem fresh {s : Storage Address} (h : Allocated s) {token : Address}
    (hToken : s.token = some token) : s.vault (s.nextId.getD 0) = none := by
  obtain ⟨n, hNext, hStored⟩ := h.counted token hToken
  rw [hNext, Option.getD_some, Option.eq_none_iff_forall_ne_some]
  intro v hVault
  have hLess := (hStored n).mp (by rw [hVault]; rfl)
  exact UInt64.lt_irrefl n hLess

theorem vault_token {s : Storage Address} (h : Allocated s) {id : UInt64} {v : Vault Address}
    (hVault : s.vault id = some v) : ∃ token, s.token = some token := by
  cases hToken : s.token with
  | some token => exact ⟨token, rfl⟩
  | none =>
      rw [(h.unset hToken).2.1 id] at hVault
      cases hVault

theorem initialise {w : World Address} (h : Allocated w.storage) (token : Address)
    (hUnset : w.storage.token = none) : Allocated (w.initialise token).storage where
  unset hToken := by cases hToken
  counted _ _ := by
    refine ⟨0, rfl, fun id => ?_⟩
    have hNone : (w.initialise token).storage.vault id = none := (h.unset hUnset).2.1 id
    rw [hNone]
    simp
  keyed := h.keyed
  increasing := h.increasing
  indexed := h.indexed

/-- Rewriting a stored vault under its own key and owner changes no part of
the allocation. -/
theorem putVault {w : World Address} (h : Allocated w.storage) {id : UInt64}
    {v v' : Vault Address} (hVault : w.storage.vault id = some v) (hOwner : v'.owner = v.owner)
    (hId : v'.vaultId = v.vaultId) : Allocated (w.putVault id v').storage where
  unset hToken := by
    have hNone := (h.unset hToken).2.1 id
    rw [hVault] at hNone
    cases hNone
  counted token hToken := by
    obtain ⟨n, hNext, hStored⟩ := h.counted token hToken
    refine ⟨n, hNext, fun k => ?_⟩
    by_cases hk : k = id
    · subst hk
      rw [← hStored, hVault]
      simp [World.putVault]
    · rw [← hStored]
      simp [World.putVault, hk]
  keyed k u hStored := by
    by_cases hk : k = id
    · subst hk
      simp only [World.putVault, Function.update_self, Option.some.injEq] at hStored
      rw [← hStored, hId]
      exact h.keyed k v hVault
    · simp only [World.putVault, Function.update_of_ne hk] at hStored
      exact h.keyed k u hStored
  increasing := h.increasing
  indexed a k := by
    change k ∈ w.storage.listOwned a ↔ _
    rw [h.indexed]
    by_cases hk : k = id
    · subst hk
      simp [World.putVault, hVault, hOwner]
    · simp [World.putVault, hk]

variable [DecidableEq Address]

/-- A new vault takes the next identifier, which is larger than every other. -/
theorem create {w : World Address} (h : Allocated w.storage) {token owner : Address}
    {id next : UInt64} {v : Vault Address} (hToken : w.storage.token = some token)
    (hId : id = w.storage.nextId.getD 0) (hNext : id.checkedAdd 1 = some next)
    (hOwner : v.owner = owner) (hVaultId : v.vaultId = id) :
    Allocated ((w.allocate owner id next).putVault id v).storage := by
  obtain ⟨n, hCounter, hStored⟩ := h.counted token hToken
  rw [hCounter, Option.getD_some] at hId
  subst hId hOwner
  have hSucc : next.toNat = id.toNat + 1 := UInt64.checkedAdd_eq_some.mp hNext
  have hBelow (k : UInt64) : k < next ↔ k < id ∨ k = id := by
    rw [UInt64.lt_iff_toNat_lt, UInt64.lt_iff_toNat_lt, ← UInt64.toNat_inj, hSucc]
    omega
  have hOld (a : Address) (k : UInt64) (hk : k ∈ w.storage.listOwned a) : k < id := by
    obtain ⟨u, hu, _⟩ := (h.indexed a k).mp hk
    exact (hStored k).mp (by rw [hu]; rfl)
  have hOther (a : Address) (ha : a ≠ v.owner) :
      ((w.allocate v.owner id next).putVault id v).storage.listOwned a =
        w.storage.listOwned a := by
    simp [World.putVault, World.allocate, Storage.listOwned, ha]
  have hOwn : ((w.allocate v.owner id next).putVault id v).storage.listOwned v.owner =
      w.storage.listOwned v.owner ++ [id] := by
    simp [World.putVault, World.allocate, Storage.listOwned]
  constructor
  case unset =>
    intro hUnset
    change w.storage.token = none at hUnset
    rw [hToken] at hUnset
    cases hUnset
  case counted =>
    intro _ _
    refine ⟨next, rfl, fun k => ?_⟩
    rw [hBelow, ← hStored]
    by_cases hk : k = id
    · simp [World.putVault, hk]
    · simp [World.putVault, World.allocate, hk]
  case keyed =>
    intro k u hu
    by_cases hk : k = id
    · subst hk
      simp only [World.putVault, Function.update_self, Option.some.injEq] at hu
      rw [← hu, hVaultId]
    · simp only [World.putVault, Function.update_of_ne hk] at hu
      exact h.keyed k u hu
  case increasing =>
    intro a
    by_cases ha : a = v.owner
    · subst ha
      rw [hOwn, List.pairwise_append]
      refine ⟨h.increasing v.owner, List.pairwise_singleton _ _, ?_⟩
      intro k hk m hm
      rw [List.mem_singleton] at hm
      rw [hm]
      exact hOld v.owner k hk
    · rw [hOther a ha]
      exact h.increasing a
  case indexed =>
    intro a k
    have hNotOld : k = id → k ∉ w.storage.listOwned a := by
      rintro rfl hk
      exact UInt64.lt_irrefl k (hOld a k hk)
    by_cases ha : a = v.owner
    · subst ha
      rw [hOwn, List.mem_append, List.mem_singleton, h.indexed]
      by_cases hk : k = id
      · simp [World.putVault, hk]
      · simp [World.putVault, World.allocate, hk]
    · rw [hOther a ha]
      by_cases hk : k = id
      · simp only [hNotOld hk, false_iff]
        simp [World.putVault, hk, Ne.symm ha]
      · rw [h.indexed]
        simp [World.putVault, World.allocate, hk]

theorem effect {w w' : World Address} {o : Observation contract} (h : Allocated w.storage)
    (hEffect : Effect contract w w' o) : Allocated w'.storage := by
  cases hEffect with
  | failed call failure hInit => exact h
  | initialised token hUnset => exact h.initialise token hUnset
  | created token owner name d u id next hOwner hAmount hTime hToken hId hNext =>
      exact h.create hToken hId hNext rfl rfl
  | deposited token caller vaultId amount balance v hCaller hAmount hVault hOwner =>
      exact h.putVault hVault rfl rfl
  | extended caller vaultId seconds u v hSeconds hVault hOwner => exact h.putVault hVault rfl rfl
  | withdrawn token caller vaultId v hCaller hVault hOwner => exact h.putVault hVault rfl rfl
  | advanced timestamp hLater => exact h
  | outside t => exact h

/-- Every reachable state is allocated, by induction over the run that leads
there. -/
theorem reachable (g : Genesis contract) (as : List (Action contract)) :
    Allocated (final (step contract) g.world as).storage :=
  invariant (step contract) (fun w => Allocated w.storage) (genesis g)
    (fun w a h => h.effect (step_effect contract w a)) as

omit [DecidableEq Address] in
/-- Each stored identifier is listed once, by its owner and by nobody else. -/
theorem listed_once {s : Storage Address} (h : Allocated s) {id : UInt64} {v : Vault Address}
    (hVault : s.vault id = some v) :
    (s.listOwned v.owner).count id = 1 ∧ ∀ b, b ≠ v.owner → id ∉ s.listOwned b := by
  constructor
  · have hNodup : (s.listOwned v.owner).Nodup :=
      (h.increasing v.owner).imp (fun hLess => UInt64.ne_of_lt hLess)
    exact List.count_eq_one_of_mem hNodup ((h.indexed v.owner id).mpr ⟨v, hVault, rfl⟩)
  · intro b hb hMem
    obtain ⟨u, hu, hOwner⟩ := (h.indexed b id).mp hMem
    rw [hVault, Option.some.injEq] at hu
    exact hb (by rw [← hOwner, ← hu])

end Allocated

section FirstInit

/-- The token an observed `init` asks for, whether it succeeds or not. -/
def requestedToken : Observation contract → Option Address
  | .invoked ⟨.init token, _, _, _, _⟩ => some token
  | _ => none

variable [DecidableEq Address]

/-- The stored token is the argument of the first `init` of the run. -/
theorem token_eq_first_request (g : Genesis contract) (as : List (Action contract)) :
    (final (step contract) g.world as).storage.token =
      (trace (step contract) g.world as).findSome? requestedToken := by
  apply history_invariant (step contract)
    (fun past w => w.storage.token = past.findSome? requestedToken)
  · rfl
  · intro past w a hToken
    have hEffect := step_effect contract w a
    rw [List.findSome?_append, ← hToken]
    generalize (step contract w a).1 = w' at hEffect
    generalize (step contract w a).2 = o at hEffect
    cases hEffect with
    | failed call failure hInit =>
        cases call with
        | init token =>
            obtain ⟨t, ht⟩ := Option.ne_none_iff_exists'.mp (hInit token rfl)
            rw [ht]
            rfl
        | createVault => simp [requestedToken]
        | deposit => simp [requestedToken]
        | extendLock => simp [requestedToken]
        | withdraw => simp [requestedToken]
    | initialised token hUnset =>
        rw [hUnset]
        rfl
    | created => simp [requestedToken, World.transfer, World.putVault, World.allocate]
    | deposited => simp [requestedToken, World.transfer, World.putVault]
    | extended => simp [requestedToken, World.putVault]
    | withdrawn => simp [requestedToken, World.transfer, World.putVault]
    | advanced => simp [requestedToken]
    | outside => simp [requestedToken]

end FirstInit

variable [DecidableEq Address]

/-- No `createVault`, successful or not, changes a vault that is stored. -/
theorem createVault_keeps_stored {w : World Address} (h : Allocated w.storage)
    (auth : Authorisation contract) (client : TokenClient Address) (owner : Address)
    (name : String) (initialDeposit : I128) (unlockTimestamp : UInt64) {k : UInt64}
    {v : Vault Address} (hVault : w.storage.vault k = some v) :
    (step contract w (.invoke auth client
      (.createVault owner name initialDeposit unlockTimestamp))).1.storage.vault k = some v := by
  have hEffect := step_effect contract w
    (.invoke auth client (.createVault owner name initialDeposit unlockTimestamp))
  have hObserved : ∃ r : Receipt Address, (step contract w (.invoke auth client
      (.createVault owner name initialDeposit unlockTimestamp))).2 = .invoked r ∧
      r.call = .createVault owner name initialDeposit unlockTimestamp := ⟨_, rfl, rfl⟩
  obtain ⟨r, hr, hCall⟩ := hObserved
  rw [hr] at hEffect
  generalize (step contract w _).1 = w' at hEffect
  cases hEffect with
  | failed call failure hInit => exact hVault
  | created token owner name d u id next hOwner hAmount hTime hToken hId hNext =>
      have hNe : k ≠ id := by
        rintro rfl
        rw [hId, h.fresh hToken] at hVault
        cases hVault
      simp only [World.transfer, World.putVault, World.allocate, Function.update_of_ne hNe]
      exact hVault
  | initialised => cases hCall
  | deposited => cases hCall
  | extended => cases hCall
  | withdrawn => cases hCall

/-- In every reachable state an unset token means empty storage; a set one is
that of the first `init`, the stored keys are exactly those below the counter,
each vault carries its key, each owner's list is the increasing list of that
owner's vaults, every vault is listed exactly once, and a further `createVault`
overwrites none of them. -/
theorem reachable_allocation (g : Genesis contract) (as : List (Action contract)) :
    let w := final (step contract) g.world as
    let s := w.storage
    (s.token = none →
      (∀ id, s.vault id = none) ∧ (∀ a, s.owned a = none) ∧ s.nextId = none) ∧
    (∀ token, s.token = some token →
      (trace (step contract) g.world as).findSome? requestedToken = some token ∧
      ∃ n, s.nextId = some n ∧ ∀ id, (s.vault id).isSome ↔ id < n) ∧
    (∀ id v, s.vault id = some v → v.vaultId = id) ∧
    (∀ a, (s.listOwned a).Pairwise (· < ·) ∧
      ∀ id, id ∈ s.listOwned a ↔ ∃ v, s.vault id = some v ∧ v.owner = a) ∧
    (∀ id, (s.vault id).isSome →
      ∃ a, (s.listOwned a).count id = 1 ∧ ∀ b, b ≠ a → id ∉ s.listOwned b) ∧
    ∀ auth client owner name initialDeposit unlockTimestamp k v, s.vault k = some v →
      (step contract w (.invoke auth client
        (.createVault owner name initialDeposit unlockTimestamp))).1.storage.vault k =
          some v := by
  intro w s
  have h : Allocated s := Allocated.reachable g as
  refine ⟨?_, ?_, h.keyed, fun a => ⟨h.increasing a, h.indexed a⟩, ?_, ?_⟩
  · intro hUnset
    obtain ⟨hNext, hVaults, hOwned⟩ := h.unset hUnset
    exact ⟨hVaults, hOwned, hNext⟩
  · intro token hToken
    exact ⟨(token_eq_first_request g as).symm.trans hToken, h.counted token hToken⟩
  · intro id hSome
    obtain ⟨v, hVault⟩ := Option.isSome_iff_exists.mp hSome
    exact ⟨v.owner, h.listed_once hVault⟩
  · intro auth client owner name initialDeposit unlockTimestamp k v hVault
    exact createVault_keeps_stored h auth client owner name initialDeposit unlockTimestamp hVault

end XlmVault
