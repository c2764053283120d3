import StellarTimelock.Contract.Allocation
import StellarTimelock.Semantics.Refinement

/-! The published events are a complete journal: whoever keeps them, with the
times of their ledgers, can rebuild every vault but for its name, the index of
every owner and the counter. -/
namespace XlmVault

open Execution

variable {Address : Type} {contract : Address}

/-- What the events tell of a vault. -/
structure Announced (Address : Type) where
  owner : Address
  balance : I128
  unlockTimestamp : UInt64
  createdTimestamp : UInt64
  withdrawn : Bool
  deriving DecidableEq

def Vault.announced (v : Vault Address) : Announced Address :=
  ⟨v.owner, v.balance, v.unlockTimestamp, v.createdTimestamp, v.withdrawn⟩

/-- What a reader of the events keeps. -/
@[ext] structure Tally (Address : Type) where
  vault : UInt64 → Option (Announced Address)
  owned : Address → List UInt64
  created : Nat

def Storage.tally (s : Storage Address) : Tally Address where
  vault id := (s.vault id).map Vault.announced
  owned := s.listOwned
  created := (s.nextId.map UInt64.toNat).getD 0

/-- Change what is kept of one vault. -/
def Tally.amend (id : UInt64) (f : Announced Address → Announced Address) (t : Tally Address) :
    Tally Address :=
  { t with vault := Function.update t.vault id ((t.vault id).map f) }

/-- The events a step publishes, with the time of its ledger. -/
def Observation.announcements : Observation contract → List (UInt64 × Event Address)
  | .invoked r => r.events.map fun e => (r.timestamp, e)
  | _ => []

variable [DecidableEq Address]

/-- Read one more event. -/
def Tally.record (t : Tally Address) (entry : UInt64 × Event Address) : Tally Address :=
  match entry.2.topics, entry.2.value with
  | [.symbol "create", .address owner], [.u64 id, .i128 amount, .u64 unlockTimestamp] =>
      { vault := Function.update t.vault id
          (some ⟨owner, amount, unlockTimestamp, entry.1, false⟩)
        owned := Function.update t.owned owner (t.owned owner ++ [id])
        created := t.created + 1 }
  | [.symbol "deposit", .address _], [.u64 id, .i128 amount] =>
      t.amend id fun v => { v with balance := (v.balance.checkedAdd amount).getD v.balance }
  | [.symbol "extend", .address _], [.u64 id, .u64 unlockTimestamp] =>
      t.amend id fun v => { v with unlockTimestamp }
  | [.symbol "withdraw", .address _], [.u64 id, .i128 _] =>
      t.amend id fun v => { v with balance := 0, withdrawn := true }
  | _, _ => t

omit [DecidableEq Address] in
/-- Writing a vault is recorded by amending it, if the event says how. -/
theorem tally_putVault {w : World Address} {id : UInt64} {v v' : Vault Address}
    (hVault : w.storage.vault id = some v) {f : Announced Address → Announced Address}
    (hf : v'.announced = f v.announced) :
    (w.putVault id v').storage.tally = w.storage.tally.amend id f := by
  have hStored : w.storage.tally.vault id = some v.announced := by
    show (w.storage.vault id).map Vault.announced = some v.announced
    rw [hVault, Option.map_some]
  refine Tally.ext ?_ rfl rfl
  funext k
  show (Function.update w.storage.vault id (some v') k).map Vault.announced =
    Function.update w.storage.tally.vault id ((w.storage.tally.vault id).map f) k
  by_cases hk : k = id
  · subst hk
    rw [Function.update_self, Function.update_self, hStored, Option.map_some, Option.map_some, hf]
  · rw [Function.update_of_ne hk, Function.update_of_ne hk]
    rfl

/-- One step changes the tally of the storage exactly as its events say. -/
theorem tally_step {w w' : World Address} {o : Observation contract} (h : Allocated w.storage)
    (hEffect : Effect contract w w' o) :
    w'.storage.tally = o.announcements.foldl Tally.record w.storage.tally := by
  cases hEffect with
  | failed => rfl
  | initialised token hUnset =>
      obtain ⟨hNext, _⟩ := h.unset hUnset
      refine Tally.ext rfl rfl ?_
      show 0 = (w.storage.nextId.map UInt64.toNat).getD 0
      rw [hNext]
      rfl
  | created token owner name d u id next hOwner hAmount hTime hToken hId hNext =>
      obtain ⟨n, hCounter, _⟩ := h.counted token hToken
      rw [hCounter, Option.getD_some] at hId
      have hSucc := UInt64.checkedAdd_eq_some.mp hNext
      refine Tally.ext ?_ ?_ ?_
      · funext k
        show (Function.update w.storage.vault id (some _) k).map Vault.announced =
          Function.update w.storage.tally.vault id _ k
        by_cases hk : k = id
        · subst hk
          rw [Function.update_self, Function.update_self]
          rfl
        · rw [Function.update_of_ne hk, Function.update_of_ne hk]
          rfl
      · funext a
        show (Function.update w.storage.owned owner (some _) a).getD [] =
          Function.update w.storage.listOwned owner _ a
        by_cases ha : a = owner
        · subst ha
          rw [Function.update_self, Function.update_self]
          rfl
        · rw [Function.update_of_ne ha, Function.update_of_ne ha]
          rfl
      · show next.toNat = (w.storage.nextId.map UInt64.toNat).getD 0 + 1
        rw [hCounter, hSucc, hId]
        rfl
  | deposited token caller vaultId amount balance v hCaller hAmount hVault hOwner hLive hToken
      hBalance =>
      refine tally_putVault hVault ?_
      simp only [Vault.announced, hBalance, Option.getD_some]
  | extended caller vaultId seconds u v hSeconds hVault => exact tally_putVault hVault rfl
  | withdrawn token caller vaultId v hCaller hVault => exact tally_putVault hVault rfl
  | advanced => rfl
  | outside => rfl

/-- After every run, reading the published events in order from nothing gives
every stored vault but for its name, the list of every owner, and, once there is
a token, the counter. -/
theorem events_determine_storage (g : Genesis contract) (as : List (Action contract)) :
    let s := (final (step contract) g.world as).storage
    let t := ((trace (step contract) g.world as).flatMap Observation.announcements).foldl
      Tally.record ⟨fun _ => none, fun _ => [], 0⟩
    (∀ id, (s.vault id).map Vault.announced = t.vault id) ∧
      (∀ a, s.listOwned a = t.owned a) ∧
      ∀ token, s.token = some token → s.nextId.map UInt64.toNat = some t.created := by
  intro s t
  have hTally : s.tally = t :=
    view_eq_foldl (step contract) (fun w => w.storage.tally) Observation.announcements Tally.record
      (fun w => Allocated w.storage) (fun w act h => h.effect (step_effect contract w act))
      (fun w act h => tally_step h (step_effect contract w act)) (Allocated.genesis g) as
  refine ⟨fun id => congrFun (congrArg Tally.vault hTally) id,
    fun a => congrFun (congrArg Tally.owned hTally) a, ?_⟩
  intro token hToken
  obtain ⟨n, hCounter, _⟩ := (Allocated.reachable g as).counted token hToken
  have hCreated : (s.nextId.map UInt64.toNat).getD 0 = t.created := congrArg Tally.created hTally
  rw [← hCreated, hCounter]
  rfl

end XlmVault
