import StellarTimelock.Client.ListAndDetail
import StellarTimelock.Client.ReplayRefinement

/-! The whole event stream of a run: whose vault an event is about, and when
the unlock time that the replay shows is the stored one. -/
namespace SorobanClient

open XlmVault Execution Transaction FloatingPoint

variable {Address : Type} {contract : Address} {key : StrKey Address}

/-- A stored unlock time was announced, after all others. -/
def Current (past : List (Receipt Address)) (w : World Address) : Prop :=
  ∀ id v, w.storage.vault id = some v →
    v.unlockTimestamp ∈ announced past id ∧ ∀ u ∈ announced past id, u ≤ v.unlockTimestamp

/-- Every parsed event is about a stored vault and names its owner. -/
def Attributed [Arithmetic] (key : StrKey Address) (past : List (Observation contract)) (w : World Address) :
    Prop :=
  ∀ events, parseEvents key (emitted past) = .ok events → ∀ e ∈ events,
    ∃ id v, w.storage.vault id = some v ∧ e.vaultId = idText id ∧
      e.ownerPublicKey = key.encode v.owner

/-- An event of a stored vault names the owner of that vault. -/
theorem Attributed.owner [Arithmetic] {past : List (Observation contract)} {w : World Address}
    (h : Attributed key past w) {events : List ParsedEvent}
    (hEvents : parseEvents key (emitted past) = .ok events) {e : ParsedEvent} (he : e ∈ events)
    {id : UInt64} {v : XlmVault.Vault Address} (hVault : w.storage.vault id = some v)
    (hId : e.vaultId = idText id) : e.ownerPublicKey = key.encode v.owner := by
  obtain ⟨k, u, hStored, hText, hOwner⟩ := h events hEvents e he
  have hSame : k = id := idText_injective (hText.symm.trans hId)
  rw [hSame, hVault, Option.some.injEq] at hStored
  rw [hOwner, hStored]

theorem Current.genesis (g : Genesis contract) : Current [] g.world := by
  intro id v hVault
  cases hVault

/-- At the start there are no events, and so none with a wrong owner. -/
theorem Attributed.genesis [Arithmetic] (key : StrKey Address) (g : Genesis contract) :
    Attributed key ([] : List (Observation contract)) g.world := by
  intro events hEvents e he
  cases hEvents
  cases he

/-- A step that announces nothing and keeps every unlock time. -/
theorem Current.quiet {past past' : List (Receipt Address)} {w w' : World Address}
    (h : Current past w) (hPast : ∀ id, announced past' id = announced past id)
    (hKept : ∀ id v, w'.storage.vault id = some v →
      ∃ before, w.storage.vault id = some before ∧ v.unlockTimestamp = before.unlockTimestamp) :
    Current past' w' := by
  intro id v hVault
  obtain ⟨before, hBefore, hSame⟩ := hKept id v hVault
  rw [hPast, hSame]
  exact h id before hBefore

/-- A receipt that announces no unlock time of a vault leaves those that were
announced. -/
theorem announced_concat_none {past : List (Receipt Address)} {r : Receipt Address} {id : UInt64}
    (h : announces id r = none) : announced (past ++ [r]) id = announced past id := by
  rw [announced_concat, h]
  exact List.append_nil _

/-- A step that announces one unlock time, which is stored. -/
theorem Current.announce {past : List (Receipt Address)} {r : Receipt Address} {w w' : World Address}
    (h : Current past w) (id u : UInt64) {v : XlmVault.Vault Address}
    (hAnnounce : announces id r = some u) (hOther : ∀ k, k ≠ id → announces k r = none)
    (hVault : w'.storage.vault id = some v) (hUnlock : v.unlockTimestamp = u)
    (hKept : ∀ k, k ≠ id → w'.storage.vault k = w.storage.vault k)
    (hLatest : ∀ t ∈ announced past id, t ≤ u) : Current (past ++ [r]) w' := by
  intro k v' hVault'
  by_cases hk : k = id
  · subst hk
    cases hVault.symm.trans hVault'
    rw [announced_concat, hAnnounce, hUnlock]
    refine ⟨List.mem_append_right _ (List.mem_singleton.mpr rfl), ?_⟩
    intro t ht
    rcases List.mem_append.mp ht with ht | ht
    · exact hLatest t ht
    · rw [List.mem_singleton.mp ht]
      exact UInt64.le_refl u
  · rw [announced_concat_none (hOther k hk)]
    exact h k v' ((hKept k hk).symm.trans hVault')

/-- A written vault with the unlock time that it had leaves every unlock time. -/
theorem unlock_kept_putVault {w : World Address} {id : UInt64} {v : XlmVault.Vault Address}
    (written : XlmVault.Vault Address) (hVault : w.storage.vault id = some v)
    (hUnlock : written.unlockTimestamp = v.unlockTimestamp) {k : UInt64}
    {v' : XlmVault.Vault Address} (h : (w.putVault id written).storage.vault k = some v') :
    ∃ before, w.storage.vault k = some before ∧ v'.unlockTimestamp = before.unlockTimestamp := by
  by_cases hk : k = id
  · subst hk
    simp only [World.putVault, Function.update_self, Option.some.injEq] at h
    exact ⟨v, hVault, by rw [← h, hUnlock]⟩
  · simp only [World.putVault, Function.update_of_ne hk] at h
    exact ⟨v', h, rfl⟩

/-- A step that emits nothing and keeps every vault and its owner. -/
theorem Attributed.quiet [Arithmetic] {past : List (Observation contract)} {w w' : World Address}
    {o : Observation contract} (h : Attributed key past w) (hNone : emitted [o] = [])
    (hEvolves : w.Evolves w') : Attributed key (past ++ [o]) w' := by
  intro events hEvents e he
  obtain ⟨id, v, hVault, hId, hOwner⟩ := h events (parse_emitted_none hNone hEvents) e he
  obtain ⟨v', hVault', hLater⟩ := hEvolves id v hVault
  exact ⟨id, v', hVault', hId, by rw [hLater.owner, hOwner]⟩

/-- A step that emits one event of a vault that it stores. -/
theorem Attributed.emit [Arithmetic] {past : List (Observation contract)} {w w' : World Address}
    {o : Observation contract} {ev : EventResponse Address} (h : Attributed key past w)
    (hOne : emitted [o] = [ev]) (hEvolves : w.Evolves w') {id : UInt64}
    {v : XlmVault.Vault Address} (hVault : w'.storage.vault id = some v)
    (hParsed : ∀ e, parseEvent key ev = .ok (some e) →
      e.vaultId = idText id ∧ e.ownerPublicKey = key.encode v.owner) :
    Attributed key (past ++ [o]) w' := by
  intro events hEvents e he
  obtain ⟨before, parsed, hBefore, hNew, rfl⟩ := parse_emitted_one hOne hEvents
  rcases List.mem_append.mp he with he | he
  · obtain ⟨k, u, hOld, hId, hOwner⟩ := h before hBefore e he
    obtain ⟨u', hOld', hLater⟩ := hEvolves k u hOld
    exact ⟨k, u', hOld', hId, by rw [hLater.owner, hOwner]⟩
  · rw [Option.mem_toList] at he
    rw [he] at hNew
    obtain ⟨hId, hOwner⟩ := hParsed e hNew
    exact ⟨id, v, hVault, hId, hOwner⟩

/-- The first second of a UTC day in the years that the replay accepts. -/
def AtMidnight (u : UInt64) : Prop := Readable u ∧ u.toNat % 86400 = 0

/-- What the replay shows as the unlock time is never after it. -/
theorem shownUnlock_le (u : UInt64) : shownUnlock u ≤ u.toNat := by
  unfold shownUnlock
  split_ifs <;> omega

/-- It is the unlock time itself exactly if that is the start of a day that the
note can be read back for. -/
theorem shownUnlock_eq_iff {u : UInt64} (h : 0 < u.toNat) :
    shownUnlock u = u.toNat ↔ AtMidnight u := by
  unfold shownUnlock AtMidnight Readable
  split_ifs with hYear
  · rw [and_iff_right hYear]
    omega
  · refine iff_of_false ?_ (fun hMidnight => hYear hMidnight.1)
    omega

/-- The latest day that the replay knows is the stored unlock time only if that
is the start of a day. -/
theorem latestShown_eq_iff {past : List (Receipt Address)} {id u : UInt64}
    (hMem : u ∈ announced past id) (hLatest : ∀ t ∈ announced past id, t ≤ u) (h : 0 < u.toNat) :
    latestShown past id = u.toNat ↔ AtMidnight u := by
  rw [← shownUnlock_eq_iff h]
  have hUpper : latestShown past id ≤ u.toNat := by
    rw [latestShown_le_iff (Int.natCast_nonneg _)]
    intro t ht
    have hBefore := UInt64.le_iff_toNat_le.mp (hLatest t ht)
    have hShown := shownUnlock_le t
    omega
  constructor
  · intro hSame
    by_contra hNot
    have hOwn := shownUnlock_le u
    have hEarlier : latestShown past id ≤ u.toNat - 1 := by
      rw [latestShown_le_iff (by omega)]
      intro t ht
      by_cases hEq : t = u
      · rw [hEq]
        omega
      · have hBefore := UInt64.le_iff_toNat_le.mp (hLatest t ht)
        have hNe : t.toNat ≠ u.toNat := fun h => hEq (UInt64.toNat_inj.mp h)
        have hShown := shownUnlock_le t
        omega
    omega
  · intro hSame
    have hNonneg : 0 ≤ latestShown past id :=
      ((foldl_max_le_iff (announced past id) 0 _).mp (Int.le_refl _)).1
    have hLower := (latestShown_le_iff hNonneg).mp (Int.le_refl _) u hMem
    omega

/-- What is known of a run beside `Tracked`. -/
structure Streamed [Arithmetic] (key : StrKey Address) (past : List (Observation contract)) (w : World Address) :
    Prop where
  tracked : Tracked key past w
  sound : w.Sound
  current : Current (receipts past) w
  attributed : Attributed key past w

theorem Streamed.genesis [Arithmetic] (key : StrKey Address) (g : Genesis contract) :
    Streamed key ([] : List (Observation contract)) g.world :=
  ⟨Tracked.genesis key g, World.Sound.genesis g, Current.genesis g, Attributed.genesis key g⟩

/-- The whole stream is replayed to what is stored, for the owner of its first
event of the vault. -/
theorem Streamed.replayed [Arithmetic] {past : List (Observation contract)} {w : World Address}
    (h : Streamed key past w) {events : List ParsedEvent}
    (hEvents : parseEvents key (emitted past) = .ok events) {id : UInt64}
    {v : XlmVault.Vault Address} (hVault : w.storage.vault id = some v) :
    (∃ e, events.find? (fun e => e.vaultId = idText id) = some e ∧
      e.ownerPublicKey = key.encode v.owner) ∧
    (replay events (key.encode v.owner)).find? (fun a => a.vaultId = idText id) =
      some (accumOf (receipts past) w.storage id) := by
  have hReplay := (h.tracked.mirrors events hEvents).replay_eq v.owner
  have hListed : id ∈ w.storage.listOwned v.owner :=
    (h.tracked.allocated.indexed v.owner id).mpr ⟨v, hVault, rfl⟩
  have hMem : accumOf (receipts past) w.storage id ∈ replay events (key.encode v.owner) := by
    rw [hReplay]
    exact List.mem_map_of_mem hListed
  refine ⟨?_, (find?_key_iff (replay_nodup events _)).mpr ⟨hMem, rfl⟩⟩
  obtain ⟨created, hCreated, -, -, hId⟩ :=
    (exists_replay_iff events (key.encode v.owner) (idText id)).mp ⟨_, hMem, rfl⟩
  have hSome : (events.find? fun e => e.vaultId = idText id).isSome = true :=
    List.find?_isSome.mpr ⟨created, hCreated, decide_eq_true hId⟩
  obtain ⟨e, hFirst⟩ := Option.isSome_iff_exists.mp hSome
  have hFirstId : e.vaultId = idText id := by simpa using List.find?_some hFirst
  exact ⟨e, hFirst,
    h.attributed.owner hEvents (List.mem_of_find?_eq_some hFirst) hVault hFirstId⟩

variable [DecidableEq Address]

/-- Every step keeps the last announced unlock time of each vault the stored
one: only `create_vault` and `extend_lock` announce one, and both store it. -/
theorem Current.effect [Arithmetic] {past : List (Observation contract)} {w w' : World Address}
    {o : Observation contract} (hTracked : Tracked key past w) (h : Current (receipts past) w)
    (hEffect : Effect contract w w' o) : Current (receipts (past ++ [o])) w' := by
  cases hEffect with
  | failed call failure =>
      rw [receipts_invoked]
      exact h.quiet (fun id => announced_concat_none (by cases call <;> rfl))
        (fun id v hVault => ⟨v, hVault, rfl⟩)
  | initialised token =>
      rw [receipts_invoked]
      exact h.quiet (fun id => announced_concat_none rfl) (fun id v hVault => ⟨v, hVault, rfl⟩)
  | created token owner name d u id next hOwner hAmount hTime hToken hId =>
      have hFresh : w.storage.vault id = none := by
        rw [hId]
        exact hTracked.allocated.fresh hToken
      rw [receipts_invoked]
      refine h.announce id u (if_pos rfl) (fun k hk => if_neg (Ne.symm hk))
        (Function.update_self id _ _) rfl (fun k hk => Function.update_of_ne hk _ _) ?_
      intro t ht
      rw [hTracked.unannounced id hFresh] at ht
      cases ht
  | deposited token caller id amount balance v hCaller hAmount hVault =>
      rw [receipts_invoked]
      exact h.quiet (fun id => announced_concat_none rfl)
        (fun k v' hWritten => unlock_kept_putVault { v with balance } hVault rfl hWritten)
  | extended caller id seconds u v hSeconds hVault hOwner hLive hUnlock =>
      rw [receipts_invoked]
      refine h.announce id u (if_pos rfl) (fun k hk => if_neg (Ne.symm hk))
        (Function.update_self id _ _) rfl (fun k hk => Function.update_of_ne hk _ _) ?_
      intro t ht
      have hBefore := UInt64.le_iff_toNat_le.mp ((h id v hVault).2 t ht)
      have hSum := UInt64.checkedAdd_eq_some.mp hUnlock
      exact UInt64.le_iff_toNat_le.mpr (by omega)
  | withdrawn token caller id v hCaller hVault =>
      rw [receipts_invoked]
      exact h.quiet (fun id => announced_concat_none rfl)
        (fun k v' hWritten =>
          unlock_kept_putVault { v with balance := 0, withdrawn := true } hVault rfl hWritten)
  | advanced timestamp =>
      rw [receipts_advanced]
      exact h
  | outside t =>
      rw [receipts_moved]
      exact h

/-- Every step keeps the events attributed: each names the owner of a vault, who
stays its owner. -/
theorem Attributed.effect [Arithmetic] {past : List (Observation contract)} {w w' : World Address}
    {o : Observation contract} (hEvolves : w.Evolves w') (h : Attributed key past w)
    (hEffect : Effect contract w w' o) : Attributed key (past ++ [o]) w' := by
  cases hEffect with
  | failed call failure => exact h.quiet rfl hEvolves
  | initialised token => exact h.quiet rfl hEvolves
  | created token owner name d u id next =>
      refine h.emit rfl hEvolves (Function.update_self id _ _) ?_
      intro e hParsed
      rw [parse_create] at hParsed
      split_ifs at hParsed
      cases hParsed
      exact ⟨rfl, rfl⟩
  | deposited token caller id amount balance v hCaller hAmount hVault hOwner =>
      refine h.emit rfl hEvolves (Function.update_self id _ _) ?_
      intro e hParsed
      rw [parse_deposit] at hParsed
      cases hParsed
      exact ⟨rfl, congrArg key.encode hOwner.symm⟩
  | extended caller id seconds u v hSeconds hVault hOwner =>
      refine h.emit rfl hEvolves (Function.update_self id _ _) ?_
      intro e hParsed
      rw [parse_extend] at hParsed
      split_ifs at hParsed
      cases hParsed
      exact ⟨rfl, congrArg key.encode hOwner.symm⟩
  | withdrawn token caller id v hCaller hVault hOwner =>
      refine h.emit rfl hEvolves (Function.update_self id _ _) ?_
      intro e hParsed
      rw [parse_withdraw] at hParsed
      cases hParsed
      exact ⟨rfl, congrArg key.encode hOwner.symm⟩
  | advanced timestamp => exact h.quiet rfl hEvolves
  | outside t => exact h.quiet rfl hEvolves

/-- All that is known of the event stream together is kept by every step. -/
theorem Streamed.effect [Arithmetic] {past : List (Observation contract)} {w w' : World Address}
    {o : Observation contract} (h : Streamed key past w) (hEffect : Effect contract w w' o) :
    Streamed key (past ++ [o]) w' := by
  obtain ⟨hSound, hEvolves⟩ := h.sound.effect hEffect
  exact ⟨h.tracked.effect hEffect, hSound, Current.effect h.tracked h.current hEffect,
    h.attributed.effect hEvolves hEffect⟩

/-- So it holds of the stream of every run, and results about the replay take it
from here. -/
theorem Streamed.reachable [Arithmetic] (key : StrKey Address) (g : Genesis contract)
    (as : List (Action contract)) :
    Streamed key (trace (step contract) g.world as) (final (step contract) g.world as) :=
  history_invariant (step contract) (Streamed key) (Streamed.genesis key g)
    (fun _ w a h => h.effect (step_effect contract w a)) as

end SorobanClient
