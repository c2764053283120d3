import StellarTimelock.Keystore.SessionKeystore
import Mathlib.Data.List.ReduceOption

/-! Which stored seeds a later process can read. The calls come one after the
other, and the process can be killed at every suspension point. -/
namespace SessionKeystore

open Interleaving Execution

/-- A device with at most one call under way. The seeds that `setWalletSeed`
has last reported as stored are kept for later comparison. -/
structure Device where
  shared : Shared
  flight : Option Flight
  promised : String → Option String

inductive DeviceAction where
  | start (call : Call)
  | resume (outcome : Outcome)
  | event (e : Event)
  | kill
  deriving DecidableEq

/-- A call that changes what is stored voids what was promised before. -/
def voided (promised : String → Option String) : Call → String → Option String
  | .getWalletSeed _ => promised
  | .setWalletSeed id _ => Function.update promised id none
  | .removeWalletSeed id => Function.update promised id none

/-- A `setWalletSeed` that resolves to `true` promises its seed. -/
def promisedBy (promised : String → Option String) : Call → Result → String → Option String
  | .setWalletSeed id seed, .stored true => Function.update promised id (some seed)
  | _, _ => promised

namespace Device

/-- The device after a stretch of its call, and the result if that was the last. -/
def settle (promised : String → Option String) (turn : Turn Shared Flight Notified) :
    Device × Option Result :=
  match turn.point.stage with
  | .finished result =>
      (⟨turn.shared, none, promisedBy promised turn.point.call result⟩, some result)
  | _ => (⟨turn.shared, some turn.point, promised⟩, none)

/-- A device on which nothing has been promised yet. -/
def initial (clock : Nat) (slot : String → Option (Variant × String)) (flag : String → Bool) :
    Device :=
  ⟨SessionKeystore.initial clock slot flag, none, fun _ => none⟩

/-- A new process over what the device holds. -/
def restart (d : Device) : Device :=
  ⟨SessionKeystore.initial d.shared.clock d.shared.slot d.shared.flag, none, d.promised⟩

def step (d : Device) : DeviceAction → Device × Option Result
  | .start call =>
      match d.flight with
      | none => settle (voided d.promised call) (SessionKeystore.start d.shared call)
      | some _ => (d, none)
  | .resume outcome =>
      match d.flight with
      | none => (d, none)
      | some f => settle d.promised (SessionKeystore.resume false d.shared f outcome)
  | .event e => ({ d with shared := (SessionKeystore.event d.shared e).1 }, none)
  | .kill => (d.restart, none)

/-- The results of a `getWalletSeed` for which every prompt is granted and every
storage call succeeds. -/
def read (d : Device) (id : String) : List Result :=
  (trace step d (.start (.getWalletSeed id) :: List.replicate 8 (.resume .succeeds))).reduceOption

/-- Every seed that was promised can be read. -/
def Durable (d : Device) : Prop :=
  ∀ id seed, d.promised id = some seed → d.read id = [.seed (some seed)]

end Device

/-- The variant by which a wallet is read. -/
def Shared.variant (s : Shared) (id : String) : Variant :=
  if s.flag id then .authenticated else .plain

/-- The flag agrees with the variant that wrote the slot. -/
def Settled (s : Shared) (id seed : String) : Prop :=
  seed ≠ "" ∧ s.slot id = some (s.variant id, seed)

/-- What a read without failures finds. -/
def Shared.found (s : Shared) (id : String) : Option String :=
  if s.secureGet false (s.variant id) id = "" then none
  else some (s.secureGet false (s.variant id) id)

/-- A seed is settled in the store exactly if a fresh read, which follows the
flag, finds it. -/
theorem settled_iff_found {s : Shared} {id seed : String} :
    Settled s id seed ↔ s.found id = some seed := by
  unfold Settled Shared.found Shared.secureGet
  cases hSlot : s.slot id with
  | none => simp
  | some written =>
      obtain ⟨writer, text⟩ := written
      by_cases hWriter : writer = s.variant id
      · by_cases hText : text = ""
        · simp [hWriter, hText]
        · simp [hWriter, hText]
          intro h h'
          exact hText (h ▸ h')
      · simp [hWriter]

@[simp] theorem initial_sessionCache (clock : Nat) (slot : String → Option (Variant × String))
    (flag : String → Bool) : (initial clock slot flag).sessionCache = [] := rfl

@[simp] theorem initial_flag (clock : Nat) (slot : String → Option (Variant × String))
    (flag : String → Bool) : (initial clock slot flag).flag = flag := rfl

@[simp] theorem initial_secureGet (s : Shared) (variant : Variant) (id : String) :
    (initial s.clock s.slot s.flag).secureGet false variant id = s.secureGet false variant id := rfl

/-- A fresh read comes to what the flag and the slot say. -/
theorem read_restart (d : Device) (id : String) :
    d.restart.read id = [.seed (d.shared.found id)] := by
  unfold Shared.found Shared.variant
  cases hFlag : d.shared.flag id with
  | true =>
      by_cases hText : d.shared.secureGet false .authenticated id = "" <;>
        simp [Device.read, Device.restart, trace, Device.step, Device.settle, start,
          SessionCache.get, wait, resume, perform, hFlag, proceed, Call.next, Call.id, List.replicate,
          hText, finish, warm]
  | false =>
      by_cases hText : d.shared.secureGet false .plain id = "" <;>
        simp [Device.read, Device.restart, trace, Device.step, Device.settle, start,
          SessionCache.get, wait, resume, perform, hFlag, proceed, Call.next, Call.id, List.replicate,
          hText, finish, warm]

/-- After a restart, when nothing is cached, durability is that every promised
seed is settled in the store. -/
theorem durable_restart_iff {d : Device} :
    d.restart.Durable ↔ ∀ id seed, d.promised id = some seed → Settled d.shared id seed := by
  have hSeed (id seed : String) :
      d.restart.read id = [.seed (some seed)] ↔ Settled d.shared id seed := by
    rw [read_restart, settled_iff_found, List.singleton_inj, Result.seed.injEq]
  constructor
  · intro h id seed hPromised
    exact (hSeed id seed).mp (h id seed hPromised)
  · intro h id seed hPromised
    exact (hSeed id seed).mpr (h id seed hPromised)

/-- The seed has been rewritten under a prompt, and the flag does not say so yet. -/
def Stage.Unmarked : Stage → Prop
  | .answered (.secureSet .authenticated _) (.done true) => True
  | .awaiting (.setFlag _) => True
  | _ => False

/-- A `setWalletSeed` resolves to `true` only with a seed, and with the flag as
its last write needs it. A migration of a promised seed is neither killed nor
failed by the storage between its write of the seed and that of the flag. -/
def Device.Careful (d : Device) : DeviceAction → Prop
  | .resume outcome => ∀ f, d.flight = some f →
      match f.call, f.stage with
      | .setWalletSeed id seed, .answered (.secureSet .plain _) (.done true) =>
          seed ≠ "" ∧ d.shared.flag id = false
      | .setWalletSeed id seed, .answered (.setFlag _) _ => seed ≠ "" ∧ d.shared.flag id = true
      | .getWalletSeed id, .awaiting (.setFlag _) => d.promised id = none ∨ outcome = .succeeds
      | _, _ => True
  | .kill => ∀ f id, d.flight = some f → f.call = .getWalletSeed id → f.stage.Unmarked →
      d.promised id = none
  | _ => True

/-- Where a read stands that runs while a seed is promised. -/
inductive Reading (s : Shared) (id seed : String) : Stage → Prop where
  | looking (hSettled : Settled s id seed) : Reading s id seed (.awaiting .getFlag)
  | looked (reply : Reply) (hSettled : Settled s id seed) :
      Reading s id seed (.answered .getFlag reply)
  | fetching (variant : Variant) (hSettled : Settled s id seed) :
      Reading s id seed (.awaiting (.secureGet variant))
  | fetched (reply : Reply) (hSettled : Settled s id seed) :
      Reading s id seed (.answered (.secureGet .authenticated) reply)
  | found (legacy : String) (hSettled : Settled s id seed)
      (hLegacy : legacy ≠ "" → legacy = seed ∧ s.flag id = false) :
      Reading s id seed (.answered (.secureGet .plain) (.seed legacy))
  | rewriting (hSettled : Settled s id seed) (hFlag : s.flag id = false) :
      Reading s id seed (.awaiting (.secureSet .authenticated seed))
  | refused (hSettled : Settled s id seed) :
      Reading s id seed (.answered (.secureSet .authenticated seed) (.done false))
  | rewritten (hSeed : seed ≠ "") (hSlot : s.slot id = some (.authenticated, seed))
      (hFlag : s.flag id = false) :
      Reading s id seed (.answered (.secureSet .authenticated seed) (.done true))
  | marking (hSeed : seed ≠ "") (hSlot : s.slot id = some (.authenticated, seed))
      (hFlag : s.flag id = false) : Reading s id seed (.awaiting (.setFlag seed))
  | marked (reply : Reply) (hSettled : Settled s id seed) :
      Reading s id seed (.answered (.setFlag seed) reply)

/-- Where a `setWalletSeed` stands. -/
inductive Writing (s : Shared) (id seed : String) : Stage → Prop where
  | binding : Writing s id seed (.awaiting (.secureSet .authenticated seed))
  | bound (hSlot : s.slot id = some (.authenticated, seed)) :
      Writing s id seed (.answered (.secureSet .authenticated seed) (.done true))
  | refused : Writing s id seed (.answered (.secureSet .authenticated seed) (.done false))
  | marking (hSlot : s.slot id = some (.authenticated, seed)) :
      Writing s id seed (.awaiting (.setFlag seed))
  | marked (reply : Reply) (hSlot : s.slot id = some (.authenticated, seed)) :
      Writing s id seed (.answered (.setFlag seed) reply)
  | falling : Writing s id seed (.awaiting (.secureSet .plain seed))
  | fallen (hSlot : s.slot id = some (.plain, seed)) :
      Writing s id seed (.answered (.secureSet .plain seed) (.done true))
  | failed : Writing s id seed (.answered (.secureSet .plain seed) (.done false))

/-- Promised seeds can be found, except by the call that is about to see to it. -/
structure Kept (d : Device) : Prop where
  settled : ∀ id seed, d.promised id = some seed → (∀ f, d.flight = some f → f.call.id ≠ id) →
    Settled d.shared id seed
  reading : ∀ f id seed, d.flight = some f → f.call = .getWalletSeed id →
    d.promised id = some seed → Reading d.shared id seed f.stage
  writing : ∀ f id seed, d.flight = some f → f.call = .setWalletSeed id seed →
    d.promised id = none ∧ Writing d.shared id seed f.stage
  removing : ∀ f id, d.flight = some f → f.call = .removeWalletSeed id → d.promised id = none

/-- What the plain variant finds of a seed that can be found. -/
theorem Settled.of_plain {s : Shared} {id seed : String} (h : Settled s id seed)
    (hText : s.secureGet false .plain id ≠ "") :
    s.secureGet false .plain id = seed ∧ s.flag id = false := by
  obtain ⟨_, hSlot⟩ := h
  unfold Shared.secureGet at hText ⊢
  rw [hSlot] at hText ⊢
  cases hFlag : s.flag id with
  | false => simp [Shared.variant, hFlag]
  | true => simp [Shared.variant, hFlag] at hText

/-- A read of a promised seed goes on so, or ends and leaves the seed to be
found. The write of the flag has to succeed. -/
theorem Reading.resume {s : Shared} {f : Flight} {id seed : String}
    (hCall : f.call = .getWalletSeed id) (h : Reading s id seed f.stage) (outcome : Outcome)
    (hMark : f.stage = .awaiting (.setFlag seed) → outcome = .succeeds) :
    Reading (SessionKeystore.resume false s f outcome).shared id seed
        (SessionKeystore.resume false s f outcome).point.stage ∨
      ∃ result, (SessionKeystore.resume false s f outcome).point.stage = .finished result ∧
        Settled (SessionKeystore.resume false s f outcome).shared id seed := by
  obtain ⟨call, wasLocked, started, stage⟩ := f
  change call = _ at hCall
  subst hCall
  change Reading s id seed stage at h
  cases h with
  | looking hSettled =>
      cases outcome with
      | succeeds => exact Or.inl (.looked _ hSettled)
      | fallsBack => exact Or.inl (.looked _ hSettled)
      | throws => exact Or.inr ⟨_, rfl, hSettled⟩
  | looked reply hSettled =>
      cases reply with
      | flag migrated => exact Or.inl (.fetching _ hSettled)
      | seed text => exact Or.inr ⟨_, rfl, hSettled⟩
      | done ok => exact Or.inr ⟨_, rfl, hSettled⟩
  | fetching variant hSettled =>
      cases variant with
      | authenticated =>
          cases outcome with
          | succeeds => exact Or.inl (.fetched _ hSettled)
          | fallsBack => exact Or.inl (.fetched _ hSettled)
          | throws => exact Or.inr ⟨_, rfl, hSettled⟩
      | plain =>
          cases outcome with
          | succeeds =>
              exact Or.inl (.found _ hSettled hSettled.of_plain)
          | fallsBack => exact Or.inl (.found _ hSettled fun h => absurd rfl h)
          | throws => exact Or.inr ⟨_, rfl, hSettled⟩
  | fetched reply hSettled =>
      cases reply with
      | flag migrated => exact Or.inr ⟨_, rfl, hSettled⟩
      | seed text =>
          by_cases hText : text = ""
          · subst hText
            exact Or.inr ⟨_, rfl, hSettled⟩
          · simp only [SessionKeystore.resume, proceed, Call.next, if_neg hText]
            exact Or.inr ⟨_, rfl, hSettled⟩
      | done ok => exact Or.inr ⟨_, rfl, hSettled⟩
  | found legacy hSettled hLegacy =>
      by_cases hText : legacy = ""
      · subst hText
        exact Or.inr ⟨_, rfl, hSettled⟩
      · obtain ⟨rfl, hFlag⟩ := hLegacy hText
        simp only [SessionKeystore.resume, proceed, Call.next, if_neg hText]
        exact Or.inl (.rewriting hSettled hFlag)
  | rewriting hSettled hFlag =>
      cases outcome with
      | succeeds => exact Or.inl (.rewritten hSettled.1 (Function.update_self ..) hFlag)
      | fallsBack => exact Or.inl (.refused hSettled)
      | throws => exact Or.inr ⟨_, rfl, hSettled⟩
  | refused hSettled => exact Or.inr ⟨_, rfl, hSettled⟩
  | rewritten hSeed hSlot hFlag => exact Or.inl (.marking hSeed hSlot hFlag)
  | marking hSeed hSlot hFlag =>
      cases hMark rfl
      refine Or.inl (.marked _ ⟨hSeed, ?_⟩)
      show s.slot id = some (if Function.update s.flag id true id then .authenticated else .plain, seed)
      rw [Function.update_self, hSlot]
      rfl
  | marked reply hSettled => exact Or.inr ⟨_, rfl, hSettled⟩

/-- A `setWalletSeed` goes on, or ends, and to `true` only after its last write. -/
theorem Writing.resume {s : Shared} {f : Flight} {id seed : String}
    (hCall : f.call = .setWalletSeed id seed) (h : Writing s id seed f.stage) (outcome : Outcome) :
    Writing (SessionKeystore.resume false s f outcome).shared id seed
        (SessionKeystore.resume false s f outcome).point.stage ∨
      ∃ result, (SessionKeystore.resume false s f outcome).point.stage = .finished result ∧
        (result ≠ .stored true ∨
          (SessionKeystore.resume false s f outcome).shared.flag = s.flag ∧
          (SessionKeystore.resume false s f outcome).shared.slot = s.slot ∧
          (f.stage = .answered (.secureSet .plain seed) (.done true) ∧
              s.slot id = some (.plain, seed) ∨
            ∃ reply, f.stage = .answered (.setFlag seed) reply ∧
              s.slot id = some (.authenticated, seed))) := by
  obtain ⟨call, wasLocked, started, stage⟩ := f
  change call = _ at hCall
  subst hCall
  change Writing s id seed stage at h
  cases h with
  | binding =>
      cases outcome with
      | succeeds => exact Or.inl (.bound (Function.update_self ..))
      | fallsBack => exact Or.inl .refused
      | throws => exact Or.inr ⟨_, rfl, Or.inl (fun h => (by cases h))⟩
  | bound hSlot => exact Or.inl (.marking hSlot)
  | refused => exact Or.inl .falling
  | marking hSlot =>
      cases outcome with
      | succeeds => exact Or.inl (.marked _ hSlot)
      | fallsBack => exact Or.inl (.marked _ hSlot)
      | throws => exact Or.inr ⟨_, rfl, Or.inl (fun h => (by cases h))⟩
  | marked reply hSlot => exact Or.inr ⟨_, rfl, Or.inr ⟨rfl, rfl, Or.inr ⟨reply, rfl, hSlot⟩⟩⟩
  | falling =>
      cases outcome with
      | succeeds => exact Or.inl (.fallen (Function.update_self ..))
      | fallsBack => exact Or.inl .failed
      | throws => exact Or.inr ⟨_, rfl, Or.inl (fun h => (by cases h))⟩
  | fallen hSlot => exact Or.inr ⟨_, rfl, Or.inr ⟨rfl, rfl, Or.inl ⟨rfl, hSlot⟩⟩⟩
  | failed => exact Or.inr ⟨_, rfl, Or.inl (fun h => (by cases h))⟩

/-- Whether a seed is settled depends on the slot and the flag of its wallet
only. -/
theorem Settled.congr {s s' : Shared} {id seed : String} (hSlot : s'.slot id = s.slot id)
    (hFlag : s'.flag id = s.flag id) (h : Settled s id seed) : Settled s' id seed := by
  unfold Settled Shared.variant
  rw [hSlot, hFlag]
  exact h

/-- A call leaves what is stored for other wallets alone. -/
theorem Settled.resume_elsewhere {s : Shared} {id seed : String} (h : Settled s id seed)
    {f : Flight} (hOther : f.call.id ≠ id) (outcome : Outcome) :
    Settled (SessionKeystore.resume false s f outcome).shared id seed := by
  unfold SessionKeystore.resume
  split
  · next operation _ =>
      obtain ⟨hSlot, hFlag⟩ := perform_elsewhere false s hOther.symm operation outcome
      simp only
      split
      · exact h.congr hSlot hFlag
      · exact h.congr hSlot hFlag
  · unfold proceed
    split <;> exact h
  · exact h

/-- A call makes and voids promises of its own wallet only. -/
theorem promisedBy_elsewhere {promised : String → Option String} (call : Call) {result : Result}
    {id : String} (h : call.id ≠ id) : promisedBy promised call result id = promised id := by
  unfold promisedBy
  split
  · exact Function.update_of_ne (Ne.symm h) _ _
  · rfl

theorem promisedBy_unstored (promised : String → Option String) (call : Call) {result : Result}
    (h : result ≠ .stored true) : promisedBy promised call result = promised := by
  unfold promisedBy
  split
  · exact absurd rfl h
  · rfl

/-- A call that ends makes its promise with its result. -/
theorem settle_finished {promised : String → Option String} {turn : Turn Shared Flight Notified}
    {result : Result} (h : turn.point.stage = .finished result) :
    Device.settle promised turn =
      (⟨turn.shared, none, promisedBy promised turn.point.call result⟩, some result) := by
  unfold Device.settle
  rw [h]

theorem settle_unfinished {promised : String → Option String} {turn : Turn Shared Flight Notified}
    (h : ∀ result, turn.point.stage ≠ .finished result) :
    Device.settle promised turn = (⟨turn.shared, some turn.point, promised⟩, none) := by
  unfold Device.settle
  split
  · next result hResult => exact absurd hResult (h result)
  · rfl

theorem Reading.unfinished {s : Shared} {id seed : String} {result : Result} :
    ¬ Reading s id seed (.finished result) := fun h => by cases h

theorem Writing.unfinished {s : Shared} {id seed : String} {result : Result} :
    ¬ Writing s id seed (.finished result) := fun h => by cases h

/-- A careful `setWalletSeed` that resolves to `true` has settled its seed. -/
theorem Kept.settled_of_set {d : Device} (h : Kept d) {outcome : Outcome}
    (hCareful : d.Careful (.resume outcome)) {f : Flight} (hFlight : d.flight = some f)
    {id seed : String} (hCall : f.call = .setWalletSeed id seed)
    (hStored : (SessionKeystore.resume false d.shared f outcome).point.stage =
      .finished (.stored true)) :
    Settled (SessionKeystore.resume false d.shared f outcome).shared id seed := by
  have hCareful := hCareful f hFlight
  rw [hCall] at hCareful
  have hWriting := (h.writing f id seed hFlight hCall).2
  rcases hWriting.resume hCall outcome with hGoesOn | ⟨result, hResult, hEnd⟩
  · rw [hStored] at hGoesOn
    exact absurd hGoesOn Writing.unfinished
  · cases hStored.symm.trans hResult
    rcases hEnd with hElse | ⟨hFlag, hSlot, hLast⟩
    · exact absurd rfl hElse
    · refine Settled.congr (congrFun hSlot id) (congrFun hFlag id) ?_
      rcases hLast with ⟨hStage, hWritten⟩ | ⟨reply, hStage, hWritten⟩
      · rw [hStage] at hCareful
        obtain ⟨hSeed, hUnset⟩ := hCareful
        refine ⟨hSeed, ?_⟩
        rw [hWritten, Shared.variant, hUnset]
        rfl
      · rw [hStage] at hCareful
        obtain ⟨hSeed, hSet⟩ := hCareful
        refine ⟨hSeed, ?_⟩
        rw [hWritten, Shared.variant, hSet]
        rfl

/-- A careful read of a promised seed goes on, or ends and leaves it settled. -/
theorem Kept.reading_resume {d : Device} (h : Kept d) {outcome : Outcome}
    (hCareful : d.Careful (.resume outcome)) {f : Flight} (hFlight : d.flight = some f)
    {id seed : String} (hCall : f.call = .getWalletSeed id) (hPromised : d.promised id = some seed) :
    Reading (SessionKeystore.resume false d.shared f outcome).shared id seed
        (SessionKeystore.resume false d.shared f outcome).point.stage ∨
      ∃ result,
        (SessionKeystore.resume false d.shared f outcome).point.stage = .finished result ∧
        Settled (SessionKeystore.resume false d.shared f outcome).shared id seed := by
  refine (h.reading f id seed hFlight hCall hPromised).resume hCall outcome ?_
  intro hStage
  have hCareful := hCareful f hFlight
  rw [hCall, hStage] at hCareful
  rcases hCareful with hNone | hSucceeds
  · rw [hPromised] at hNone
    cases hNone
  · exact hSucceeds

/-- A careful stretch of the pending call keeps the promises. The cases are the
storage calls that it may be waiting for. -/
theorem Kept.resume {d : Device} (h : Kept d) {outcome : Outcome}
    (hCareful : d.Careful (.resume outcome)) : Kept (d.step (.resume outcome)).1 := by
  unfold Device.step
  cases hFlight : d.flight with
  | none => exact h
  | some f =>
      have hSame : (SessionKeystore.resume false d.shared f outcome).point.call = f.call :=
        resume_call false d.shared f outcome
      have hElsewhere (id seed : String) (hPromised : d.promised id = some seed)
          (hOther : f.call.id ≠ id) :
          Settled (SessionKeystore.resume false d.shared f outcome).shared id seed := by
        refine (h.settled id seed hPromised ?_).resume_elsewhere hOther outcome
        intro g hg
        rw [Option.some.inj (hFlight.symm.trans hg)] at hOther
        exact hOther
      by_cases hEnd : ∃ result,
          (SessionKeystore.resume false d.shared f outcome).point.stage = .finished result
      · obtain ⟨result, hResult⟩ := hEnd
        simp only
        rw [settle_finished hResult, hSame]
        refine ⟨?_, fun g id seed hg => (by cases hg), fun g id seed hg => (by cases hg),
          fun g id hg => (by cases hg)⟩
        intro id seed hPromised _
        change promisedBy d.promised f.call result id = some seed at hPromised
        cases hCall : f.call with
        | getWalletSeed own =>
            rw [hCall] at hPromised
            by_cases hOwn : own = id
            · subst hOwn
              rcases h.reading_resume hCareful hFlight hCall hPromised with hGoesOn | ⟨_, _, hSettled⟩
              · rw [hResult] at hGoesOn
                exact absurd hGoesOn Reading.unfinished
              · exact hSettled
            · exact hElsewhere id seed hPromised (hCall ▸ hOwn)
        | setWalletSeed own text =>
            rw [hCall] at hPromised
            have hVoid := (h.writing f own text hFlight hCall).1
            by_cases hOwn : own = id
            · subst hOwn
              by_cases hStored : result = .stored true
              · subst hStored
                change Function.update d.promised own (some text) own = some seed at hPromised
                rw [Function.update_self] at hPromised
                cases hPromised
                exact h.settled_of_set hCareful hFlight hCall hResult
              · rw [promisedBy_unstored _ _ hStored, hVoid] at hPromised
                cases hPromised
            · rw [promisedBy_elsewhere (Call.setWalletSeed own text) hOwn] at hPromised
              exact hElsewhere id seed hPromised (hCall ▸ hOwn)
        | removeWalletSeed own =>
            rw [hCall] at hPromised
            have hVoid := h.removing f own hFlight hCall
            refine hElsewhere id seed hPromised ?_
            rw [hCall]
            rintro rfl
            cases hVoid.symm.trans hPromised
      · have hGoesOn (result : Result) :
            (SessionKeystore.resume false d.shared f outcome).point.stage ≠ .finished result :=
          fun hResult => hEnd ⟨result, hResult⟩
        simp only
        rw [settle_unfinished hGoesOn]
        refine ⟨?_, ?_, ?_, ?_⟩
        · intro id seed hPromised hOthers
          have hOther := hOthers _ rfl
          rw [hSame] at hOther
          exact hElsewhere id seed hPromised hOther
        · intro g id seed hg hCall hPromised
          cases hg
          rw [hSame] at hCall
          rcases h.reading_resume hCareful hFlight hCall hPromised with hReading | ⟨result, hResult, _⟩
          · exact hReading
          · exact absurd hResult (hGoesOn result)
        · intro g id seed hg hCall
          cases hg
          rw [hSame] at hCall
          obtain ⟨hVoid, hWriting⟩ := h.writing f id seed hFlight hCall
          refine ⟨hVoid, ?_⟩
          rcases hWriting.resume hCall outcome with hWriting | ⟨result, hResult, _⟩
          · exact hWriting
          · exact absurd hResult (hGoesOn result)
        · intro g id hg hCall
          cases hg
          rw [hSame] at hCall
          exact h.removing f id hFlight hCall

/-- A promise that is left once a call has begun was there before, and if it is
of that call's wallet the call only reads. -/
theorem voided_of_promised {promised : String → Option String} {call : Call} {id seed : String}
    (h : voided promised call id = some seed) :
    promised id = some seed ∧ (call.id = id → call = .getWalletSeed id) := by
  cases call with
  | getWalletSeed own => exact ⟨h, fun hOwn => congrArg Call.getWalletSeed hOwn⟩
  | setWalletSeed own text =>
      by_cases hOwn : own = id
      · subst hOwn
        simp [voided] at h
      · exact ⟨(Function.update_of_ne (Ne.symm hOwn) _ _).symm.trans h, fun h => absurd h hOwn⟩
  | removeWalletSeed own =>
      by_cases hOwn : own = id
      · subst hOwn
        simp [voided] at h
      · exact ⟨(Function.update_of_ne (Ne.symm hOwn) _ _).symm.trans h, fun h => absurd h hOwn⟩

/-- The first stretch of a call stores nothing, as it runs only to the first
storage operation. -/
theorem start_storage (s : Shared) (call : Call) :
    (start s call).shared.slot = s.slot ∧ (start s call).shared.flag = s.flag := by
  cases call with
  | getWalletSeed id =>
      simp only [start]
      split <;> exact ⟨rfl, rfl⟩
  | setWalletSeed id seed => exact ⟨rfl, rfl⟩
  | removeWalletSeed id => exact ⟨rfl, rfl⟩

/-- A call begins by looking at the flag, by a write or by a removal, or it has
ended. -/
theorem start_stage (s : Shared) (call : Call) :
    (∃ result, (start s call).point.stage = .finished result ∧ result ≠ .stored true) ∨
      match call with
      | .getWalletSeed _ => (start s call).point.stage = .awaiting .getFlag
      | .setWalletSeed _ seed =>
          (start s call).point.stage = .awaiting (.secureSet .authenticated seed)
      | .removeWalletSeed _ => (start s call).point.stage = .awaiting .secureRemove := by
  cases call with
  | getWalletSeed id =>
      simp only [start]
      split
      · exact Or.inl ⟨_, rfl, fun h => (by cases h)⟩
      · exact Or.inr rfl
  | setWalletSeed id seed => exact Or.inr rfl
  | removeWalletSeed id => exact Or.inr rfl

/-- Beginning a call keeps the promises: a call that writes or removes voids
that of its wallet at once. -/
theorem Kept.start {d : Device} (h : Kept d) (call : Call) : Kept (d.step (.start call)).1 := by
  unfold Device.step
  cases hFlight : d.flight with
  | some f => exact h
  | none =>
      obtain ⟨hSlot, hFlag⟩ := start_storage d.shared call
      have hSettled (id seed : String) (hPromised : voided d.promised call id = some seed) :
          Settled (SessionKeystore.start d.shared call).shared id seed := by
        refine (h.settled id seed (voided_of_promised hPromised).1 ?_).congr (congrFun hSlot id)
          (congrFun hFlag id)
        intro f hf
        rw [hFlight] at hf
        cases hf
      simp only
      rcases start_stage d.shared call with ⟨result, hResult, hUnstored⟩ | hStage
      · rw [settle_finished hResult, promisedBy_unstored _ _ hUnstored]
        exact ⟨fun id seed hPromised _ => hSettled id seed hPromised, fun g id seed hg => (by cases hg),
          fun g id seed hg => (by cases hg), fun g id hg => (by cases hg)⟩
      · have hGoesOn (result : Result) :
            (SessionKeystore.start d.shared call).point.stage ≠ .finished result := by
          intro hResult
          cases call <;> cases hStage.symm.trans hResult
        rw [settle_unfinished hGoesOn]
        refine ⟨fun id seed hPromised _ => hSettled id seed hPromised, ?_, ?_, ?_⟩
        · intro g id seed hg hCall hPromised
          cases hg
          rw [start_call] at hCall
          subst hCall
          rw [hStage]
          exact .looking (hSettled id seed hPromised)
        · intro g id seed hg hCall
          cases hg
          rw [start_call] at hCall
          subst hCall
          rw [hStage]
          exact ⟨Function.update_self .., .binding⟩
        · intro g id hg hCall
          cases hg
          rw [start_call] at hCall
          subst hCall
          exact Function.update_self ..

theorem Reading.congr {s s' : Shared} (hSlot : s'.slot = s.slot) (hFlag : s'.flag = s.flag)
    {id seed : String} {stage : Stage} (h : Reading s id seed stage) :
    Reading s' id seed stage := by
  have hKeep : Settled s id seed → Settled s' id seed :=
    Settled.congr (congrFun hSlot id) (congrFun hFlag id)
  cases h with
  | looking hSettled => exact .looking (hKeep hSettled)
  | looked reply hSettled => exact .looked reply (hKeep hSettled)
  | fetching variant hSettled => exact .fetching variant (hKeep hSettled)
  | fetched reply hSettled => exact .fetched reply (hKeep hSettled)
  | found legacy hSettled hLegacy => exact .found legacy (hKeep hSettled) (hFlag ▸ hLegacy)
  | rewriting hSettled hUnset => exact .rewriting (hKeep hSettled) (hFlag ▸ hUnset)
  | refused hSettled => exact .refused (hKeep hSettled)
  | rewritten hSeed hWritten hUnset =>
      exact .rewritten hSeed (hSlot ▸ hWritten) (hFlag ▸ hUnset)
  | marking hSeed hWritten hUnset => exact .marking hSeed (hSlot ▸ hWritten) (hFlag ▸ hUnset)
  | marked reply hSettled => exact .marked reply (hKeep hSettled)

theorem Writing.congr {s s' : Shared} (hSlot : s'.slot = s.slot) {id seed : String} {stage : Stage}
    (h : Writing s id seed stage) : Writing s' id seed stage := by
  cases h with
  | binding => exact .binding
  | bound hWritten => exact .bound (hSlot ▸ hWritten)
  | refused => exact .refused
  | marking hWritten => exact .marking (hSlot ▸ hWritten)
  | marked reply hWritten => exact .marked reply (hSlot ▸ hWritten)
  | falling => exact .falling
  | fallen hWritten => exact .fallen (hSlot ▸ hWritten)
  | failed => exact .failed

/-- The synchronous functions keep the promises, as none of them touches the
store. -/
theorem Kept.event {d : Device} (h : Kept d) (e : Event) : Kept (d.step (.event e)).1 := by
  obtain ⟨hSlot, hFlag, _⟩ := event_free d.shared e
  refine ⟨?_, ?_, ?_, h.removing⟩
  · intro id seed hPromised hOthers
    exact (h.settled id seed hPromised hOthers).congr (congrFun hSlot id) (congrFun hFlag id)
  · intro f id seed hf hCall hPromised
    exact (h.reading f id seed hf hCall hPromised).congr hSlot hFlag
  · intro f id seed hf hCall
    obtain ⟨hVoid, hWriting⟩ := h.writing f id seed hf hCall
    exact ⟨hVoid, hWriting.congr hSlot⟩

/-- A read of a promised seed outside the window of a migration. -/
theorem Reading.settled {s : Shared} {id seed : String} {stage : Stage}
    (h : Reading s id seed stage) (hStage : ¬ stage.Unmarked) : Settled s id seed := by
  cases h with
  | looking hSettled => exact hSettled
  | looked reply hSettled => exact hSettled
  | fetching variant hSettled => exact hSettled
  | fetched reply hSettled => exact hSettled
  | found legacy hSettled _ => exact hSettled
  | rewriting hSettled _ => exact hSettled
  | refused hSettled => exact hSettled
  | rewritten _ _ _ => exact absurd trivial hStage
  | marking _ _ _ => exact absurd trivial hStage
  | marked reply hSettled => exact hSettled

/-- When the process is killed at a careful moment, every promised seed is
settled in the store, so that the next process finds it. -/
theorem Kept.settled_of_kill {d : Device} (h : Kept d) (hCareful : d.Careful .kill)
    {id seed : String} (hPromised : d.promised id = some seed) : Settled d.shared id seed := by
  cases hFlight : d.flight with
  | none =>
      refine h.settled id seed hPromised ?_
      intro f hf
      cases hFlight.symm.trans hf
  | some f =>
      by_cases hOwn : f.call.id = id
      · subst hOwn
        cases hCall : f.call with
        | getWalletSeed own =>
            rw [hCall] at hPromised
            refine (h.reading f own seed hFlight hCall hPromised).settled ?_
            intro hUnmarked
            cases (hCareful f own hFlight hCall hUnmarked).symm.trans hPromised
        | setWalletSeed own text =>
            rw [hCall] at hPromised
            cases (h.writing f own text hFlight hCall).1.symm.trans hPromised
        | removeWalletSeed own =>
            rw [hCall] at hPromised
            cases (h.removing f own hFlight hCall).symm.trans hPromised
      · refine h.settled id seed hPromised ?_
        intro g hg
        cases hFlight.symm.trans hg
        exact hOwn

/-- Every careful step keeps the promises, a kill among them. -/
theorem Kept.step {d : Device} (h : Kept d) {a : DeviceAction} (hCareful : d.Careful a) :
    Kept (d.step a).1 := by
  cases a with
  | start call => exact h.start call
  | resume outcome => exact h.resume hCareful
  | event e => exact h.event e
  | kill =>
      exact ⟨fun id seed hPromised _ => h.settled_of_kill hCareful hPromised,
        fun f id seed hf => (by cases hf), fun f id seed hf => (by cases hf),
        fun f id hf => (by cases hf)⟩

/-- A settled seed is one whose flag says which variant its slot was written by.
-/
theorem Settled.flag_of_slot {s : Shared} {id seed text : String} {variant : Variant}
    (h : Settled s id seed) (hSlot : s.slot id = some (variant, text)) :
    s.flag id = (variant == .authenticated) := by
  have hWritten : s.variant id = variant := congrArg Prod.fst (Option.some.inj (h.2.symm.trans hSlot))
  rw [← hWritten, Shared.variant]
  cases s.flag id <;> rfl

/-- In the middle of a migration, between the write of the seed and that of the
flag, the seed is not settled. -/
theorem Reading.unsettled {s : Shared} {id seed : String} {stage : Stage}
    (h : Reading s id seed stage) (hStage : stage.Unmarked) : ¬ Settled s id seed := by
  intro hSettled
  cases h with
  | rewritten _ hSlot hFlag => cases hFlag.symm.trans (hSettled.flag_of_slot hSlot)
  | marking _ hSlot hFlag => cases hFlag.symm.trans (hSettled.flag_of_slot hSlot)
  | looking _ => exact hStage
  | looked _ _ => exact hStage
  | fetching _ _ => exact hStage
  | fetched _ _ => exact hStage
  | found _ _ _ => exact hStage
  | rewriting _ _ => exact hStage
  | refused _ => exact hStage
  | marked _ _ => exact hStage

/-- A step after which all promised seeds are settled was careful: the condition
asks no more than it needs. -/
theorem Kept.careful_of_settled {d : Device} (h : Kept d) {a : DeviceAction}
    (hSettled : ∀ id seed, (d.step a).1.promised id = some seed →
      Settled (d.step a).1.shared id seed) : d.Careful a := by
  cases a with
  | start call => trivial
  | event e => trivial
  | kill =>
      intro f id hFlight hCall hUnmarked
      cases hPromised : d.promised id with
      | none => rfl
      | some seed =>
          exact absurd (hSettled id seed hPromised)
            ((h.reading f id seed hFlight hCall hPromised).unsettled hUnmarked)
  | resume outcome =>
      intro f hFlight
      have hStep : d.step (.resume outcome) =
          Device.settle d.promised (SessionKeystore.resume false d.shared f outcome) := by
        unfold Device.step
        rw [hFlight]
      rw [hStep] at hSettled
      obtain ⟨call, wasLocked, started, stage⟩ := f
      simp only
      split
      · next id seed text =>
          obtain ⟨_, hWriting⟩ := h.writing _ id seed hFlight rfl
          cases hWriting with
          | fallen hSlot =>
              have hEnd := hSettled id seed (Function.update_self ..)
              exact ⟨hEnd.1, hEnd.flag_of_slot hSlot⟩
      · next id seed text reply =>
          obtain ⟨_, hWriting⟩ := h.writing _ id seed hFlight rfl
          cases hWriting with
          | marked _ hSlot =>
              have hEnd := hSettled id seed (Function.update_self ..)
              exact ⟨hEnd.1, hEnd.flag_of_slot hSlot⟩
      · next id text =>
          cases hPromised : d.promised id with
          | none => exact Or.inl rfl
          | some seed =>
              have hReading := h.reading _ id seed hFlight rfl hPromised
              cases outcome with
              | succeeds => exact Or.inr rfl
              | fallsBack =>
                  exact absurd (hSettled id seed hPromised) (hReading.unsettled trivial)
              | throws =>
                  exact absurd (hSettled id seed hPromised) (hReading.unsettled trivial)
      · trivial

theorem kept_initial (clock : Nat) (slot : String → Option (Variant × String))
    (flag : String → Bool) : Kept (Device.initial clock slot flag) :=
  ⟨fun id seed h _ => (by cases h), fun f id seed h => (by cases h),
    fun f id seed h => (by cases h), fun f id h => (by cases h)⟩

/-- Promises are kept along every run of careful steps, from whatever the device
holds at first. -/
theorem kept_along (clock : Nat) (slot : String → Option (Variant × String)) (flag : String → Bool)
    (as : List DeviceAction)
    (hAlong : Along Device.step Device.Careful (Device.initial clock slot flag) as) :
    Kept (final Device.step (Device.initial clock slot flag) as) :=
  history_invariant_along Device.step (fun _ d => Kept d) (kept_initial clock slot flag)
    (fun _ _ _ h hCareful => h.step hCareful) as hAlong

/-- After every sequence of calls and kills whose steps are careful, a fresh
process can read every promised seed; and a careful sequence followed by a step
that is not careful leaves a promised seed that a fresh process cannot read. -/
theorem seed_durable (clock : Nat) (slot : String → Option (Variant × String))
    (flag : String → Bool) (as : List DeviceAction)
    (hAlong : Along Device.step Device.Careful (Device.initial clock slot flag) as) :
    ((final Device.step (Device.initial clock slot flag) as).Careful .kill →
      (final Device.step (Device.initial clock slot flag) (as ++ [.kill])).Durable) ∧
    ∀ a, ¬ (final Device.step (Device.initial clock slot flag) as).Careful a →
      ¬ (final Device.step (Device.initial clock slot flag) (as ++ [a, .kill])).Durable := by
  have hKept := kept_along clock slot flag as hAlong
  constructor
  · intro hKill
    rw [final_append]
    exact durable_restart_iff.mpr fun id seed hPromised => hKept.settled_of_kill hKill hPromised
  · intro a hCareless hDurable
    rw [final_append] at hDurable
    exact hCareless (hKept.careful_of_settled (durable_restart_iff.mp hDurable))

/-- A wallet is written under a prompt, and again when the prompt has failed. -/
def fallbackRun : List DeviceAction :=
  .start (.setWalletSeed "w" "OLD") :: List.replicate 4 (.resume .succeeds) ++
    [.start (.setWalletSeed "w" "NEW"), .resume .fallsBack, .resume .succeeds, .resume .succeeds,
      .resume .succeeds, .kill]

/-- The second write reports success, and the next process finds no seed. -/
theorem fallbackRun_loses :
    let d := final Device.step (Device.initial 0 (fun _ => none) (fun _ => false)) fallbackRun
    d.promised "w" = some "NEW" ∧ d.read "w" = [.seed none] := by
  decide

def storingRun : List DeviceAction :=
  .start (.setWalletSeed "w" "SEED") :: List.replicate 4 (.resume .succeeds)

theorem storingRun_careful : Along Device.step Device.Careful
    (Device.initial 0 (fun _ => none) (fun _ => false)) storingRun := by
  refine ⟨trivial, ?_, ?_, ?_, ?_, trivial⟩
  · intro f hFlight
    cases hFlight
    trivial
  · intro f hFlight
    cases hFlight
    trivial
  · intro f hFlight
    cases hFlight
    trivial
  · intro f hFlight
    cases hFlight
    exact ⟨by decide, rfl⟩

/-- A seed that is bound and flagged survives the process. -/
theorem seed_durable_sample :
    (final Device.step (Device.initial 0 (fun _ => none) (fun _ => false))
      (storingRun ++ [.kill])).read "w" = [.seed (some "SEED")] := by
  refine (seed_durable 0 (fun _ => none) (fun _ => false) storingRun storingRun_careful).1 ?_
    "w" "SEED" rfl
  intro f id hFlight
  cases hFlight

end SessionKeystore
