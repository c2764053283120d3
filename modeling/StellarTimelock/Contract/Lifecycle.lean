import StellarTimelock.Contract.Allocation

/-! The life of one vault: what holds of every stored vault in every reachable
state, and how a stored vault may differ between two states of one run. -/
namespace XlmVault

open Execution

variable {Address : Type} {contract : Address}

/-- A stored vault at ledger time `now`. -/
structure Vault.WellFormed (v : Vault Address) (now : UInt64) : Prop where
  balance_nonneg : 0 ≤ v.balance.val
  empty_iff_withdrawn : v.balance.val = 0 ↔ v.withdrawn = true
  created_before_unlock : v.createdTimestamp < v.unlockTimestamp
  created_in_past : v.createdTimestamp ≤ now

/-- A well-formed vault that has not been withdrawn has a positive balance,
since `create` refuses an amount that is not and deposits only add to it. -/
theorem Vault.WellFormed.balance_pos {v : Vault Address} {now : UInt64} (h : v.WellFormed now)
    (hLive : v.withdrawn = false) : 0 < v.balance.val := by
  have hNonneg := h.balance_nonneg
  have hNonzero : v.balance.val ≠ 0 := by
    intro hZero
    rw [h.empty_iff_withdrawn.mp hZero] at hLive
    cases hLive
  omega

/-- The second vault is a later value of the first. -/
structure Vault.Evolves (v v' : Vault Address) : Prop where
  vaultId : v'.vaultId = v.vaultId
  owner : v'.owner = v.owner
  name : v'.name = v.name
  created : v'.createdTimestamp = v.createdTimestamp
  unlock : v.unlockTimestamp ≤ v'.unlockTimestamp
  settled : v.withdrawn = true → v' = v
  grows : v'.withdrawn = false → v.balance ≤ v'.balance

namespace Vault.Evolves

theorem refl (v : Vault Address) : v.Evolves v where
  vaultId := rfl
  owner := rfl
  name := rfl
  created := rfl
  unlock := UInt64.le_refl _
  settled _ := rfl
  grows _ := Int.le_refl _

theorem trans {u v w : Vault Address} (h : u.Evolves v) (h' : v.Evolves w) : u.Evolves w where
  vaultId := h'.vaultId.trans h.vaultId
  owner := h'.owner.trans h.owner
  name := h'.name.trans h.name
  created := h'.created.trans h.created
  unlock := UInt64.le_trans h.unlock h'.unlock
  settled hDone := by
    have hv := h.settled hDone
    rw [h'.settled (by rw [hv]; exact hDone), hv]
  grows hLive := by
    -- A vault that is live at the end was live in between.
    have hMiddle : v.withdrawn = false := by
      cases hv : v.withdrawn with
      | false => rfl
      | true =>
          rw [h'.settled hv, hv] at hLive
          cases hLive
    exact Int.le_trans (h.grows hMiddle) (h'.grows hLive)

end Vault.Evolves

/-- Every vault stored in the first world is stored in the second, evolved. -/
def World.Evolves (w w' : World Address) : Prop :=
  ∀ id v, w.storage.vault id = some v → ∃ v', w'.storage.vault id = some v' ∧ v.Evolves v'

theorem World.Evolves.refl (w : World Address) : w.Evolves w :=
  fun _ v hVault => ⟨v, hVault, .refl v⟩

/-- Evolution composes, so what one action preserves is preserved by a whole
run. -/
theorem World.Evolves.trans {u v w : World Address} (h : u.Evolves v) (h' : v.Evolves w) :
    u.Evolves w := by
  intro id a ha
  obtain ⟨b, hb, hab⟩ := h id a ha
  obtain ⟨c, hc, hbc⟩ := h' id b hb
  exact ⟨c, hc, hab.trans hbc⟩

/-- Allocation and well-formedness of every stored vault. -/
structure World.Sound (w : World Address) : Prop where
  allocated : Allocated w.storage
  wellFormed : ∀ id v, w.storage.vault id = some v → v.WellFormed w.now

/-- The storage of a contract that has just been deployed is sound, for it has
no vault. -/
theorem World.Sound.genesis (g : Genesis contract) : g.world.Sound where
  allocated := Allocated.genesis g
  wellFormed id v hVault := by cases hVault

/-- Writing one vault keeps every vault well formed if the new value is. -/
theorem wellFormed_putVault {w : World Address}
    (h : ∀ id v, w.storage.vault id = some v → v.WellFormed w.now) {id : UInt64}
    {v : Vault Address} (hNew : v.WellFormed w.now) :
    ∀ k u, (w.putVault id v).storage.vault k = some u → u.WellFormed w.now := by
  intro k u hu
  by_cases hk : k = id
  · subst hk
    simp only [World.putVault, Function.update_self, Option.some.injEq] at hu
    rw [← hu]
    exact hNew
  · simp only [World.putVault, Function.update_of_ne hk] at hu
    exact h k u hu

/-- Rewriting one vault is an evolution if its old value evolves into it. -/
theorem evolves_putVault (w : World Address) {id : UInt64} {v v' : Vault Address}
    (hVault : w.storage.vault id = some v) (hEvolves : v.Evolves v') :
    w.Evolves (w.putVault id v') := by
  intro k u hu
  by_cases hk : k = id
  · subst hk
    rw [hVault, Option.some.injEq] at hu
    subst hu
    exact ⟨v', by simp [World.putVault], hEvolves⟩
  · exact ⟨u, by simpa [World.putVault, hk] using hu, .refl u⟩

/-- Storing a vault under an unused key is an evolution. -/
theorem evolves_putVault_fresh (w : World Address) {id : UInt64} (v : Vault Address)
    (hFresh : w.storage.vault id = none) : w.Evolves (w.putVault id v) := by
  intro k u hu
  have hk : k ≠ id := by
    rintro rfl
    rw [hFresh] at hu
    cases hu
  exact ⟨u, by simpa [World.putVault, hk] using hu, .refl u⟩

variable [DecidableEq Address]

/-- One step keeps every stored vault well formed and only evolves it. -/
theorem World.Sound.effect {w w' : World Address} {o : Observation contract} (h : w.Sound)
    (hEffect : Effect contract w w' o) : w'.Sound ∧ w.Evolves w' := by
  refine ⟨⟨h.allocated.effect hEffect, ?_⟩, ?_⟩
  · cases hEffect with
    | failed => exact h.wellFormed
    | initialised => exact h.wellFormed
    | created token owner name d u id next hOwner hAmount hTime =>
        refine wellFormed_putVault (w := w.allocate owner id next) h.wellFormed ?_
        exact
          { balance_nonneg := by simp only; omega
            empty_iff_withdrawn := by
              simp only [Bool.false_eq_true, iff_false]
              omega
            created_before_unlock := hTime
            created_in_past := UInt64.le_refl _ }
    | deposited token caller vaultId amount balance v hCaller hAmount hVault hOwner hLive hToken
        hBalance =>
        have hOld := h.wellFormed vaultId v hVault
        have hPos := hOld.balance_pos hLive
        have hSum := I128.checkedAdd_eq_some.mp hBalance
        refine wellFormed_putVault h.wellFormed ?_
        exact
          { balance_nonneg := by simp only; omega
            empty_iff_withdrawn := by
              simp only [hLive, Bool.false_eq_true, iff_false]
              omega
            created_before_unlock := hOld.created_before_unlock
            created_in_past := hOld.created_in_past }
    | extended caller vaultId seconds u v hSeconds hVault hOwner hLive hUnlock =>
        have hOld := h.wellFormed vaultId v hVault
        have hSum := UInt64.checkedAdd_eq_some.mp hUnlock
        refine wellFormed_putVault h.wellFormed ?_
        refine ⟨hOld.balance_nonneg, hOld.empty_iff_withdrawn, ?_, hOld.created_in_past⟩
        have hBefore := UInt64.lt_iff_toNat_lt.mp hOld.created_before_unlock
        rw [UInt64.lt_iff_toNat_lt]
        simp only
        omega
    | withdrawn token caller vaultId v hCaller hVault =>
        have hOld := h.wellFormed vaultId v hVault
        refine wellFormed_putVault h.wellFormed ?_
        exact ⟨Int.le_refl 0, by simp, hOld.created_before_unlock, hOld.created_in_past⟩
    | advanced timestamp hLater =>
        intro id v hVault
        have hOld := h.wellFormed id v hVault
        exact ⟨hOld.balance_nonneg, hOld.empty_iff_withdrawn, hOld.created_before_unlock,
          UInt64.le_trans hOld.created_in_past hLater⟩
    | outside => exact h.wellFormed
  · cases hEffect with
    | failed => exact .refl w
    | initialised => exact .refl w
    | created token owner name d u id next hOwner hAmount hTime hToken hId =>
        refine evolves_putVault_fresh (w.allocate owner id next) _ ?_
        rw [hId]
        exact h.allocated.fresh hToken
    | deposited token caller vaultId amount balance v hCaller hAmount hVault hOwner hLive hToken
        hBalance =>
        have hSum := I128.checkedAdd_eq_some.mp hBalance
        refine evolves_putVault w hVault ⟨rfl, rfl, rfl, rfl, UInt64.le_refl _, ?_, ?_⟩
        · intro hDone
          rw [hLive] at hDone
          cases hDone
        · intro _
          rw [I128.le_def]
          simp only
          omega
    | extended caller vaultId seconds u v hSeconds hVault hOwner hLive hUnlock =>
        have hSum := UInt64.checkedAdd_eq_some.mp hUnlock
        refine evolves_putVault w hVault ⟨rfl, rfl, rfl, rfl, ?_, ?_, fun _ => Int.le_refl _⟩
        · rw [UInt64.le_iff_toNat_le]
          simp only
          omega
        · intro hDone
          rw [hLive] at hDone
          cases hDone
    | withdrawn token caller vaultId v hCaller hVault hOwner hLive =>
        refine evolves_putVault w hVault ⟨rfl, rfl, rfl, rfl, UInt64.le_refl _, ?_, ?_⟩
        · intro hDone
          rw [hLive] at hDone
          cases hDone
        · intro hStill
          cases hStill
    | advanced => exact .refl w
    | outside => exact .refl w

/-- Every action keeps the storage sound, whichever entry point it calls and
whether the call is accepted, refused or rolled back. -/
theorem World.Sound.step {w : World Address} (h : w.Sound) (a : Action contract) :
    (step contract w a).1.Sound := (h.effect (step_effect contract w a)).1

/-- Every reachable state is sound, by induction over the run that leads there.
-/
theorem World.Sound.reachable (g : Genesis contract) (as : List (Action contract)) :
    (final (XlmVault.step contract) g.world as).Sound :=
  invariant (XlmVault.step contract) World.Sound (genesis g) (fun _ a h => h.step a) as

/-- In every reachable state each stored vault has a nonnegative balance that
is zero exactly once it is withdrawn, was created in the past and before its
unlock time. In every later state of the run it is still there with the same
owner, name, id and creation time, an unlock time that has not moved back, a
balance that has not dropped while it is live, and no change at all once it is
withdrawn. -/
theorem reachable_lifecycle (g : Genesis contract) (as later : List (Action contract)) :
    let w := final (step contract) g.world as
    let w' := final (step contract) w later
    (∀ id v, w.storage.vault id = some v →
      0 ≤ v.balance.val ∧ (v.balance.val = 0 ↔ v.withdrawn = true) ∧
      v.createdTimestamp < v.unlockTimestamp ∧ v.createdTimestamp ≤ w.now) ∧
    ∀ id v, w.storage.vault id = some v → ∃ v', w'.storage.vault id = some v' ∧
      v'.owner = v.owner ∧ v'.name = v.name ∧ v'.vaultId = v.vaultId ∧
      v'.createdTimestamp = v.createdTimestamp ∧ v.unlockTimestamp ≤ v'.unlockTimestamp ∧
      (v.withdrawn = true → v' = v) ∧ (v'.withdrawn = false → v.balance ≤ v'.balance) := by
  intro w w'
  have h : w.Sound := World.Sound.reachable g as
  constructor
  · intro id v hVault
    have hForm := h.wellFormed id v hVault
    exact ⟨hForm.balance_nonneg, hForm.empty_iff_withdrawn, hForm.created_before_unlock,
      hForm.created_in_past⟩
  · intro id v hVault
    have hRun : w.Evolves w' := related (step contract) World.Evolves World.Evolves.refl
      (fun _ _ _ => World.Evolves.trans) (fun _ a hs => hs.step a)
      (fun s a hs => (hs.effect (step_effect contract s a)).2) w h later
    obtain ⟨v', hVault', hEvolves⟩ := hRun id v hVault
    exact ⟨v', hVault', hEvolves.owner, hEvolves.name, hEvolves.vaultId, hEvolves.created,
      hEvolves.unlock, hEvolves.settled, hEvolves.grows⟩

end XlmVault
