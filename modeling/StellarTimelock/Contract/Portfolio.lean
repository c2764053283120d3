import StellarTimelock.Contract.Independence
import StellarTimelock.Semantics.Refinement

/-! What an address owns is settled by its own dealings: no call, transfer or
choice of ids by anybody else shows in it, and its next call on a vault is
answered by it alone. -/
namespace XlmVault

open Execution

variable {Address : Type} {contract : Address}

/-- A call that succeeded, with its time and the id that a created vault was
given. What it was answered otherwise is not part of it. -/
structure Dealing (Address : Type) where
  call : Call Address
  timestamp : UInt64
  given : Option UInt64
  deriving DecidableEq

/-- The id that a reply gives away. -/
def Reply.given : Reply → Option UInt64
  | .id vaultId => some vaultId
  | _ => none

/-- The vaults of an address, oldest first. -/
def Storage.portfolio (s : Storage Address) (a : Address) : List (Vault Address) :=
  (s.listOwned a).filterMap s.vault

/-- Change the vault of this id. -/
def amend (id : UInt64) (f : Vault Address → Vault Address) (p : List (Vault Address)) :
    List (Vault Address) :=
  p.map fun v => if v.vaultId = id then f v else v

def Vault.topUp (amount : I128) (v : Vault Address) : Vault Address :=
  { v with balance := (v.balance.checkedAdd amount).getD v.balance }

def Vault.putOff (additionalSeconds : UInt64) (v : Vault Address) : Vault Address :=
  { v with
    unlockTimestamp := (v.unlockTimestamp.checkedAdd additionalSeconds).getD v.unlockTimestamp }

def Vault.payOut (v : Vault Address) : Vault Address := { v with balance := 0, withdrawn := true }

/-- The portfolio after one more dealing. -/
def enter (p : List (Vault Address)) (e : Dealing Address) : List (Vault Address) :=
  match e.call, e.given with
  | .createVault owner name initialDeposit unlockTimestamp, some id =>
      p ++ [⟨id, owner, name, initialDeposit, unlockTimestamp, e.timestamp, false⟩]
  | .deposit _ id amount, _ => amend id (Vault.topUp amount) p
  | .extendLock _ id additionalSeconds, _ => amend id (Vault.putOff additionalSeconds) p
  | .withdraw _ id, _ => amend id Vault.payOut p
  | _, _ => p

/-- The vault of this id. -/
def lookUp (id : UInt64) (p : List (Vault Address)) : Option (Vault Address) :=
  p.find? fun v => v.vaultId = id

/-- What a dealing is answered by the owner of this portfolio's own vaults. -/
def answer (p : List (Vault Address)) (e : Dealing Address) : Reply :=
  match e.call, e.given with
  | .createVault _ _ _ _, some id => .id id
  | .extendLock _ id additionalSeconds, _ =>
      (lookUp id p).elim .unit fun v => .unlock (v.putOff additionalSeconds).unlockTimestamp
  | .withdraw _ id, _ => (lookUp id p).elim .unit fun v => .amount v.balance
  | _, _ => .unit

def Vault.rename (ρ : UInt64 → UInt64) (v : Vault Address) : Vault Address :=
  { v with vaultId := ρ v.vaultId }

def Call.rename (ρ : UInt64 → UInt64) : Call Address → Call Address
  | .init token => .init token
  | .createVault owner name initialDeposit unlockTimestamp =>
      .createVault owner name initialDeposit unlockTimestamp
  | .deposit caller vaultId amount => .deposit caller (ρ vaultId) amount
  | .extendLock caller vaultId additionalSeconds => .extendLock caller (ρ vaultId) additionalSeconds
  | .withdraw caller vaultId => .withdraw caller (ρ vaultId)

def Reply.rename (ρ : UInt64 → UInt64) : Reply → Reply
  | .id vaultId => .id (ρ vaultId)
  | reply => reply

def Dealing.rename (ρ : UInt64 → UInt64) (e : Dealing Address) : Dealing Address :=
  ⟨e.call.rename ρ, e.timestamp, e.given.map ρ⟩

/-- Amending a vault that is not in the portfolio changes nothing. -/
theorem amend_absent {id : UInt64} {f : Vault Address → Vault Address} {p : List (Vault Address)}
    (h : ∀ v ∈ p, v.vaultId ≠ id) : amend id f p = p := by
  unfold amend
  conv_rhs => rw [← List.map_id p]
  apply List.map_congr_left
  intro v hMem
  rw [if_neg (h v hMem)]
  rfl

/-- Two amendments that agree on the vault amend the portfolio alike. -/
theorem amend_congr {id : UInt64} {f g : Vault Address → Vault Address} {p : List (Vault Address)}
    (h : ∀ v ∈ p, v.vaultId = id → f v = g v) : amend id f p = amend id g p := by
  apply List.map_congr_left
  intro v hMem
  by_cases hId : v.vaultId = id
  · rw [if_pos hId, if_pos hId, h v hMem hId]
  · rw [if_neg hId, if_neg hId]

/-- Amending commutes with renaming the ids, provided that the renaming is
injective and the amendment does not look at the id. -/
theorem amend_rename {ρ : UInt64 → UInt64} (hρ : Function.Injective ρ) {id : UInt64}
    {f : Vault Address → Vault Address} (hf : ∀ v, (f v).rename ρ = f (v.rename ρ))
    (p : List (Vault Address)) :
    (amend id f p).map (Vault.rename ρ) = amend (ρ id) f (p.map (Vault.rename ρ)) := by
  unfold amend
  rw [List.map_map, List.map_map]
  apply List.map_congr_left
  intro v _
  show Vault.rename ρ (if v.vaultId = id then f v else v) =
    if ρ v.vaultId = ρ id then f (v.rename ρ) else v.rename ρ
  by_cases hId : v.vaultId = id
  · rw [if_pos hId, if_pos (congrArg ρ hId), hf]
  · rw [if_neg hId, if_neg fun hSame => hId (hρ hSame)]

/-- Entering a renamed dealing into a renamed portfolio gives the renamed
result, for no call looks at an id except to find the vault. -/
theorem enter_rename {ρ : UInt64 → UInt64} (hρ : Function.Injective ρ) (p : List (Vault Address))
    (e : Dealing Address) :
    enter (p.map (Vault.rename ρ)) (e.rename ρ) = (enter p e).map (Vault.rename ρ) := by
  obtain ⟨call, timestamp, given⟩ := e
  cases call with
  | init token => rfl
  | createVault owner name d u =>
      cases given with
      | none => rfl
      | some vaultId => simp [enter, Dealing.rename, Call.rename, Vault.rename]
  | deposit caller vaultId amount =>
      exact (amend_rename (f := Vault.topUp amount) hρ (fun _ => rfl) p).symm
  | extendLock caller vaultId seconds =>
      exact (amend_rename (f := Vault.putOff seconds) hρ (fun _ => rfl) p).symm
  | withdraw caller vaultId => exact (amend_rename (f := Vault.payOut) hρ (fun _ => rfl) p).symm

/-- Looking up a renamed id in a renamed portfolio finds the renamed vault. -/
theorem lookUp_rename {ρ : UInt64 → UInt64} (hρ : Function.Injective ρ) (id : UInt64)
    (p : List (Vault Address)) :
    lookUp (ρ id) (p.map (Vault.rename ρ)) = (lookUp id p).map (Vault.rename ρ) := by
  unfold lookUp
  rw [List.find?_map]
  congr 2
  funext v
  exact decide_eq_decide.mpr hρ.eq_iff

/-- The portfolio answers a renamed dealing with the renamed answer. -/
theorem answer_rename {ρ : UInt64 → UInt64} (hρ : Function.Injective ρ) (p : List (Vault Address))
    (e : Dealing Address) :
    answer (p.map (Vault.rename ρ)) (e.rename ρ) = (answer p e).rename ρ := by
  obtain ⟨call, timestamp, given⟩ := e
  cases call with
  | init token => rfl
  | createVault owner name d u =>
      cases given with
      | none => rfl
      | some vaultId => rfl
  | deposit caller vaultId amount => rfl
  | extendLock caller vaultId seconds =>
      show (lookUp (ρ vaultId) (p.map (Vault.rename ρ))).elim Reply.unit _ =
        Reply.rename ρ ((lookUp vaultId p).elim .unit _)
      rw [lookUp_rename hρ]
      cases lookUp vaultId p with
      | none => rfl
      | some v => rfl
  | withdraw caller vaultId =>
      show (lookUp (ρ vaultId) (p.map (Vault.rename ρ))).elim Reply.unit _ =
        Reply.rename ρ ((lookUp vaultId p).elim .unit _)
      rw [lookUp_rename hρ]
      cases lookUp vaultId p with
      | none => rfl
      | some v => rfl

/-- The portfolio of an address has exactly the stored vaults that it owns. -/
theorem mem_portfolio {s : Storage Address} (h : Allocated s) {a : Address} {v : Vault Address} :
    v ∈ s.portfolio a ↔ s.vault v.vaultId = some v ∧ v.owner = a := by
  rw [Storage.portfolio, List.mem_filterMap]
  constructor
  · rintro ⟨id, hListed, hVault⟩
    obtain ⟨u, hStored, hOwner⟩ := (h.indexed a id).mp hListed
    rw [hStored] at hVault
    cases hVault
    rw [h.keyed id v hStored]
    exact ⟨hStored, hOwner⟩
  · rintro ⟨hVault, hOwner⟩
    exact ⟨v.vaultId, (h.indexed a v.vaultId).mpr ⟨v, hVault, hOwner⟩, hVault⟩

/-- A vault is found by its id in the portfolio of its owner. -/
theorem lookUp_portfolio {s : Storage Address} (h : Allocated s) {id : UInt64} {v : Vault Address}
    (hVault : s.vault id = some v) : lookUp id (s.portfolio v.owner) = some v := by
  have hKey := h.keyed id v hVault
  have hMem : v ∈ s.portfolio v.owner := (mem_portfolio h).mpr ⟨hKey ▸ hVault, rfl⟩
  unfold lookUp
  cases hFound : (s.portfolio v.owner).find? fun u => u.vaultId = id with
  | none => exact absurd (decide_eq_true hKey) (List.find?_eq_none.mp hFound v hMem)
  | some u =>
      have hId : u.vaultId = id := by simpa using List.find?_some hFound
      have hStored := ((mem_portfolio h).mp (List.mem_of_find?_eq_some hFound)).1
      rw [hId, hVault] at hStored
      exact hStored.symm

/-- Rewriting a stored vault under its owner amends that vault in every
portfolio that has it. -/
theorem portfolio_putVault {w : World Address} (h : Allocated w.storage) {id : UInt64}
    {v v' : Vault Address} (hVault : w.storage.vault id = some v) (a : Address) :
    (w.putVault id v').storage.portfolio a = amend id (fun _ => v') (w.storage.portfolio a) := by
  have hSame (k : UInt64) (hListed : k ∈ w.storage.listOwned a) :
      (w.putVault id v').storage.vault k =
        (w.storage.vault k).map fun u => if u.vaultId = id then v' else u := by
    obtain ⟨u, hStored, _⟩ := (h.indexed a k).mp hListed
    have hKey := h.keyed k u hStored
    by_cases hk : k = id
    · subst hk
      rw [hStored, Option.map_some, if_pos hKey]
      exact Function.update_self _ _ _
    · have hOther : u.vaultId ≠ id := by rw [hKey]; exact hk
      rw [hStored, Option.map_some, if_neg hOther]
      exact (Function.update_of_ne hk _ _).trans hStored
  show (w.storage.listOwned a).filterMap _ = _
  rw [List.filterMap_congr hSame, amend, Storage.portfolio, List.map_filterMap]

variable [DecidableEq Address]

/-- A new vault is added to the portfolio of its owner. -/
theorem portfolio_create {w : World Address} (h : Allocated w.storage) {owner : Address}
    {id next : UInt64} {v : Vault Address} (hFresh : w.storage.vault id = none) (a : Address) :
    ((w.allocate owner id next).putVault id v).storage.portfolio a =
      w.storage.portfolio a ++ if owner = a then [v] else [] := by
  have hSame (k : UInt64) (hListed : k ∈ w.storage.listOwned a) :
      Function.update w.storage.vault id (some v) k = w.storage.vault k := by
    obtain ⟨u, hStored, _⟩ := (h.indexed a k).mp hListed
    refine Function.update_of_ne ?_ _ _
    rintro rfl
    rw [hFresh] at hStored
    cases hStored
  have hOld : (w.storage.listOwned a).filterMap (Function.update w.storage.vault id (some v)) =
      w.storage.portfolio a := List.filterMap_congr hSame
  by_cases hOwner : owner = a
  · subst hOwner
    have hListed : ((w.allocate owner id next).putVault id v).storage.listOwned owner =
        w.storage.listOwned owner ++ [id] := by
      simp [World.putVault, World.allocate, Storage.listOwned]
    rw [Storage.portfolio, hListed, List.filterMap_append, if_pos rfl]
    refine congrArg₂ _ hOld ?_
    simp [World.putVault]
  · have hListed : ((w.allocate owner id next).putVault id v).storage.listOwned a =
        w.storage.listOwned a := by
      simp [World.putVault, World.allocate, Storage.listOwned, Ne.symm hOwner]
    rw [Storage.portfolio, hListed, if_neg hOwner, List.append_nil]
    exact hOld

/-- What one step shows of an address: its own successful call, if it was one. -/
def Observation.dealings (a : Address) : Observation contract → List (Dealing Address)
  | .invoked ⟨call, timestamp, .ok reply, _, _⟩ =>
      if call.caller = some a then [⟨call, timestamp, reply.given⟩] else []
  | _ => []

/-- What one step replies to an address, if it was its own successful call. -/
def Observation.replies (a : Address) : Observation contract → List Reply
  | .invoked ⟨call, _, .ok reply, _, _⟩ => if call.caller = some a then [reply] else []
  | _ => []

/-- The successful calls of an address, oldest first. -/
def dealings (a : Address) (past : List (Observation contract)) : List (Dealing Address) :=
  past.flatMap (Observation.dealings a)

/-- What the successful calls of an address were replied, oldest first. -/
def replies (a : Address) (past : List (Observation contract)) : List Reply :=
  past.flatMap (Observation.replies a)

/-- A step changes the portfolio of an address by its own dealing alone. -/
theorem portfolio_step {w w' : World Address} {o : Observation contract} (h : Allocated w.storage)
    (hEffect : Effect contract w w' o) (a : Address) :
    w'.storage.portfolio a = (o.dealings a).foldl enter (w.storage.portfolio a) := by
  -- A vault that is written keeps its owner, so only the portfolio of its owner has it.
  have hForeign {id : UInt64} {v : Vault Address} (hVault : w.storage.vault id = some v)
      (hOwner : v.owner ≠ a) (f : Vault Address → Vault Address) :
      amend id f (w.storage.portfolio a) = w.storage.portfolio a := by
    refine amend_absent fun u hMem hId => hOwner ?_
    obtain ⟨hStored, hMine⟩ := (mem_portfolio h).mp hMem
    rw [hId, hVault] at hStored
    cases hStored
    exact hMine
  have hOwn {id : UInt64} {v : Vault Address} (hVault : w.storage.vault id = some v)
      (f : Vault Address → Vault Address) :
      amend id (fun _ => f v) (w.storage.portfolio a) = amend id f (w.storage.portfolio a) := by
    refine amend_congr fun u hMem hId => ?_
    obtain ⟨hStored, _⟩ := (mem_portfolio h).mp hMem
    rw [hId, hVault] at hStored
    cases hStored
    rfl
  -- A write through `f` by the owner of the vault, observed as one dealing.
  have hWrite {id : UInt64} {v : Vault Address} (hVault : w.storage.vault id = some v)
      (f : Vault Address → Vault Address) (e : Dealing Address)
      (hEnter : ∀ p, enter p e = amend id f p) :
      (w.putVault id (f v)).storage.portfolio a =
        (if some v.owner = some a then [e] else []).foldl enter (w.storage.portfolio a) := by
    rw [portfolio_putVault h hVault, hOwn hVault f]
    by_cases hOwner : v.owner = a
    · rw [if_pos (congrArg some hOwner), List.foldl_cons, List.foldl_nil, hEnter]
    · rw [if_neg fun hSame => hOwner (Option.some.inj hSame), List.foldl_nil,
        hForeign hVault hOwner]
  cases hEffect with
  | failed => rfl
  | initialised token => rfl
  | created token owner name d u id next hOwner hAmount hTime hToken hId hNext =>
      have hFresh : w.storage.vault id = none := by
        rw [hId]
        exact h.fresh hToken
      refine (portfolio_create h hFresh a).trans ?_
      simp only [Observation.dealings, Call.caller, Option.some.injEq]
      split_ifs
      · rfl
      · exact List.append_nil _
  | deposited token caller vaultId amount balance v hCaller hAmount hVault hOwner hLive hToken
      hBalance =>
      subst hOwner
      have hTopUp : ({ v with balance } : Vault Address) = v.topUp amount := by
        rw [Vault.topUp, hBalance, Option.getD_some]
      rw [hTopUp]
      exact hWrite hVault (Vault.topUp amount) _ (fun _ => rfl)
  | extended caller vaultId seconds u v hSeconds hVault hOwner hLive hUnlock =>
      subst hOwner
      have hPutOff : ({ v with unlockTimestamp := u } : Vault Address) = v.putOff seconds := by
        rw [Vault.putOff, hUnlock, Option.getD_some]
      rw [hPutOff]
      exact hWrite hVault (Vault.putOff seconds) _ (fun _ => rfl)
  | withdrawn token caller vaultId v hCaller hVault hOwner =>
      subst hOwner
      exact hWrite hVault Vault.payOut _ (fun _ => rfl)
  | advanced => rfl
  | outside => rfl

/-- A step replies to an address what its portfolio has to answer. -/
theorem replies_step {w w' : World Address} {o : Observation contract} (h : Allocated w.storage)
    (hEffect : Effect contract w w' o) (a : Address) :
    o.replies a = answers enter answer (w.storage.portfolio a) (o.dealings a) := by
  have hSingle (call : Call Address) (reply : Reply)
      (hReply : call.caller = some a →
        answer (w.storage.portfolio a) ⟨call, w.now, reply.given⟩ = reply) :
      (if call.caller = some a then [reply] else []) =
        answers enter answer (w.storage.portfolio a)
          (if call.caller = some a then [⟨call, w.now, reply.given⟩] else []) := by
    by_cases hMine : call.caller = some a
    · rw [if_pos hMine, if_pos hMine]
      exact congrArg (fun r => [r]) (hReply hMine).symm
    · rw [if_neg hMine, if_neg hMine]
      rfl
  cases hEffect with
  | failed => rfl
  | initialised token => exact hSingle (.init token) .unit fun _ => rfl
  | created token owner name d u id => exact hSingle (.createVault owner name d u) (.id id) fun _ => rfl
  | deposited token caller vaultId amount =>
      exact hSingle (.deposit caller vaultId amount) .unit fun _ => rfl
  | extended caller vaultId seconds u v hSeconds hVault hOwner hLive hUnlock =>
      refine hSingle (.extendLock caller vaultId seconds) (.unlock u) fun hMine => ?_
      cases hMine
      subst hOwner
      show (lookUp vaultId _).elim Reply.unit _ = _
      rw [lookUp_portfolio h hVault, Option.elim_some, Vault.putOff, hUnlock, Option.getD_some]
  | withdrawn token caller vaultId v hCaller hVault hOwner =>
      refine hSingle (.withdraw caller vaultId) (.amount v.balance) fun hMine => ?_
      cases hMine
      subst hOwner
      show (lookUp vaultId _).elim Reply.unit _ = _
      rw [lookUp_portfolio h hVault, Option.elim_some]
  | advanced => rfl
  | outside => rfl

/-- The portfolio of an address is what its own dealings make of nothing. -/
theorem portfolio_eq_foldl (g : Genesis contract) (as : List (Action contract)) (a : Address) :
    (final (step contract) g.world as).storage.portfolio a =
      (dealings a (trace (step contract) g.world as)).foldl enter [] :=
  view_eq_foldl (step contract) (fun w => w.storage.portfolio a) (Observation.dealings a) enter
    (fun w => Allocated w.storage) (fun w act h => h.effect (step_effect contract w act))
    (fun w act h => portfolio_step h (step_effect contract w act) a) (Allocated.genesis g) as

/-- Its replies are what the portfolio so made answers to them. -/
theorem replies_eq_answers (g : Genesis contract) (as : List (Action contract)) (a : Address) :
    replies a (trace (step contract) g.world as) =
      answers enter answer [] (dealings a (trace (step contract) g.world as)) :=
  told_eq_answers (step contract) enter answer (fun w => w.storage.portfolio a)
    (Observation.dealings a) (Observation.replies a) (fun w => Allocated w.storage)
    (fun w act h => h.effect (step_effect contract w act))
    (fun w act h => portfolio_step h (step_effect contract w act) a)
    (fun w act h => replies_step h (step_effect contract w act) a) (Allocated.genesis g) as

/-- The one transfer that a call asks the token for, if it gets so far. -/
def Call.transfer (contract : Address) (s : Storage Address) :
    Call Address → Option (Transfer Address)
  | .createVault owner _ initialDeposit _ =>
      s.token.map fun token => ⟨token, owner, contract, initialDeposit⟩
  | .deposit caller _ amount => s.token.map fun token => ⟨token, caller, contract, amount⟩
  | .withdraw caller vaultId =>
      s.token.bind fun token => (s.vault vaultId).map fun v => ⟨token, contract, caller, v.balance⟩
  | _ => none

/-- A call that was answered with a reply has performed a change with this
reply. -/
theorem performs_of_result {w : World Address} {auth : Authorisation contract}
    {client : TokenClient Address} {call : Call Address} {a : Address} {reply : Reply}
    (hCaller : call.caller = some a)
    (hResult : (step contract w (.invoke auth client call)).2.result = some (.ok reply)) :
    ∃ c, Performs contract client w call c ∧ c.reply = reply := by
  cases hRun : EStateM.run (dispatch ⟨contract, w.now, auth.grants, client⟩ call) w.host with
  | ok answered h =>
      obtain ⟨c, hPerforms, hReply, _⟩ := performs_of_run hCaller hRun
      have hKept := Transaction.atomically_ok.mpr hRun
      simp only [step, Observation.result, hKept, Option.some.injEq, Except.ok.injEq] at hResult
      exact ⟨c, hPerforms, hReply.trans hResult⟩
  | error failure h =>
      have hRolledBack := Transaction.atomically_error hRun
      simp only [step, Observation.result, hRolledBack, Option.some.injEq] at hResult
      cases hResult

omit [DecidableEq Address] in
/-- A call on a vault of the portfolio that passes its checks in one world
passes them in another where the portfolio is the same but for the ids, unless
the token refuses its transfer, and has the same reply. -/
theorem performs_of_portfolio {contract' : Address} {client client' : TokenClient Address}
    {w w' : World Address} (h : Allocated w.storage) (h' : Allocated w'.storage) {a : Address}
    {ρ : UInt64 → UInt64} (hSame : w'.storage.portfolio a = (w.storage.portfolio a).map (Vault.rename ρ))
    (hNow : w'.now = w.now) {call : Call Address} (hCaller : call.caller = some a)
    (hOld : call.creates = false)
    (hAccepts : ∀ t, (call.rename ρ).transfer contract' w'.storage = some t →
      client'.accepts w'.ledger t = true)
    {c : Change Address} (hPerforms : Performs contract client w call c) :
    ∃ c', Performs contract' client' w' (call.rename ρ) c' ∧ c'.reply = c.reply := by
  have hFind {id : UInt64} {v : Vault Address} (hVault : w.storage.vault id = some v)
      (hOwner : v.owner = a) : w'.storage.vault (ρ id) = some (v.rename ρ) ∧
        ∃ token, w'.storage.token = some token := by
    have hKey := h.keyed id v hVault
    have hMem : v ∈ w.storage.portfolio a :=
      (mem_portfolio h).mpr ⟨hKey ▸ hVault, hOwner⟩
    have hRenamed : v.rename ρ ∈ w'.storage.portfolio a := by
      rw [hSame]
      exact List.mem_map_of_mem hMem
    have hStored := ((mem_portfolio h').mp hRenamed).1
    rw [← hKey]
    exact ⟨hStored, h'.vault_token hStored⟩
  cases call with
  | init token => cases hCaller
  | createVault => cases hOld
  | deposit caller vaultId amount =>
      have hMine := Option.some.inj hCaller
      subst hMine
      obtain ⟨hAmount, v, hVault, hOwner, hLive, _, _, _, balance, hBalance, rfl⟩ := hPerforms
      obtain ⟨hStored, token, hToken⟩ := hFind hVault hOwner
      have hPaid : (Call.deposit caller (ρ vaultId) amount).transfer contract' w'.storage =
          some ⟨token, caller, contract', amount⟩ := by
        rw [Call.transfer, hToken, Option.map_some]
      exact ⟨_, ⟨hAmount, _, hStored, hOwner, hLive, token, hToken, hAccepts _ hPaid, balance,
        hBalance, rfl⟩, rfl⟩
  | extendLock caller vaultId seconds =>
      cases hCaller
      obtain ⟨hSeconds, v, hVault, hOwner, hLive, u, hUnlock, rfl⟩ := hPerforms
      obtain ⟨hStored, _⟩ := hFind hVault hOwner
      exact ⟨_, ⟨hSeconds, _, hStored, hOwner, hLive, u, hUnlock, rfl⟩, rfl⟩
  | withdraw caller vaultId =>
      have hMine := Option.some.inj hCaller
      subst hMine
      obtain ⟨v, hVault, hOwner, hLive, hTime, _, _, _, rfl⟩ := hPerforms
      obtain ⟨hStored, token, hToken⟩ := hFind hVault hOwner
      have hPaid : (Call.withdraw caller (ρ vaultId)).transfer contract' w'.storage =
          some ⟨token, contract', caller, v.balance⟩ := by
        rw [Call.transfer, hToken, Option.bind_some, hStored, Option.map_some]
        rfl
      exact ⟨_, ⟨_, hStored, hOwner, hLive, hNow ▸ hTime, token, hToken, hAccepts _ hPaid, rfl⟩, rfl⟩

/-- Two runs, of any two deployments and among any other users, in which an
address made the same successful calls at the same times, up to the ids that its
new vaults were given, leave it the same portfolio and gave it the same replies
up to those ids. At the same time every call on one of its vaults that succeeds
in the one has the same reply in the other, if the token there accepts the one
transfer it asks for. -/
theorem portfolio_noninterference {contract' : Address} (g : Genesis contract)
    (g' : Genesis contract') (as : List (Action contract)) (as' : List (Action contract'))
    (a : Address) (ρ : UInt64 → UInt64) (hρ : Function.Injective ρ)
    (hDealings : dealings a (trace (step contract') g'.world as') =
      (dealings a (trace (step contract) g.world as)).map (Dealing.rename ρ)) :
    let w := final (step contract) g.world as
    let w' := final (step contract') g'.world as'
    w'.storage.portfolio a = (w.storage.portfolio a).map (Vault.rename ρ) ∧
      replies a (trace (step contract') g'.world as') =
        (replies a (trace (step contract) g.world as)).map (Reply.rename ρ) ∧
      (w'.now = w.now → ∀ (auth : Authorisation contract) (auth' : Authorisation contract')
        (client client' : TokenClient Address) (call : Call Address) (reply : Reply),
        call.caller = some a → call.creates = false → auth'.grants a = true →
        (∀ t, (call.rename ρ).transfer contract' w'.storage = some t →
          client'.accepts w'.ledger t = true) →
        (step contract w (.invoke auth client call)).2.result = some (.ok reply) →
        (step contract' w' (.invoke auth' client' (call.rename ρ))).2.result = some (.ok reply)) := by
  intro w w'
  have hSame : w'.storage.portfolio a = (w.storage.portfolio a).map (Vault.rename ρ) := by
    have hFold (past : List (Dealing Address)) (p : List (Vault Address)) :
        past.foldl (fun p e => enter p (e.rename ρ)) (p.map (Vault.rename ρ)) =
          (past.foldl enter p).map (Vault.rename ρ) :=
      List.foldl_hom _ fun p e => enter_rename hρ p e
    rw [portfolio_eq_foldl g as a, portfolio_eq_foldl g' as' a, hDealings, List.foldl_map]
    exact hFold _ []
  have hReplies : replies a (trace (step contract') g'.world as') =
      (replies a (trace (step contract) g.world as)).map (Reply.rename ρ) := by
    rw [replies_eq_answers g as a, replies_eq_answers g' as' a, hDealings]
    exact answers_map enter answer (List.map (Vault.rename ρ)) (Dealing.rename ρ) (Reply.rename ρ)
      (enter_rename hρ) (answer_rename hρ) [] _
  refine ⟨hSame, hReplies, ?_⟩
  intro hNow auth auth' client client' call reply hCaller hOld hAuth' hAccepts hResult
  have hRenamed : (call.rename ρ).caller = some a := by
    cases call <;> exact hCaller
  obtain ⟨c, hPerforms, rfl⟩ := performs_of_result hCaller hResult
  obtain ⟨c', hPerforms', hReply⟩ := performs_of_portfolio (Allocated.reachable g as)
    (Allocated.reachable g' as') hSame hNow hCaller hOld hAccepts hPerforms
  rw [← hReply]
  exact (step_performs hRenamed hAuth' hPerforms').2

/-- Address 7 alone: it sets the token 1, locks some money, tops it up, puts the
opening off and waits for it. -/
def aloneRun (first more : I128) : List (Action (0 : Nat)) :=
  [.invoke everyone willing (.init 1),
    .invoke everyone willing (.createVault 7 "Roof" first 9000),
    .invoke everyone willing (.deposit 7 0 more),
    .invoke everyone willing (.extendLock 7 0 60),
    .advance 9100]

/-- The same among others: address 8 locks money first and address 7 is given
the next id. -/
def crowdedRun (first more : I128) : List (Action (0 : Nat)) :=
  [.invoke everyone willing (.init 2),
    .invoke everyone willing (.createVault 8 "Car" more 50),
    .invoke everyone willing (.createVault 7 "Roof" first 9000),
    .invoke everyone willing (.withdraw 8 1),
    .invoke everyone willing (.extendLock 8 0 7),
    .invoke everyone willing (.deposit 7 1 more),
    .invoke everyone willing (.extendLock 7 1 60),
    .advance 9100]

/-- A token that pays out to address 7 and does nothing else. -/
def paysSeven : TokenClient Nat := ⟨fun _ t => decide (t.destination = 7)⟩

/-- The lock is put off to the same time in both, and both then pay the same out. -/
theorem portfolio_noninterference_sample :
    let alone := aloneRun ⟨610, by decide, by decide⟩ ⟨33, by decide, by decide⟩
    let crowded := crowdedRun ⟨610, by decide, by decide⟩ ⟨33, by decide, by decide⟩
    let w := final (step (0 : Nat)) sampleGenesis.world alone
    let w' := final (step (0 : Nat)) sampleGenesis.world crowded
    w'.storage.portfolio 7 = (w.storage.portfolio 7).map (Vault.rename (· + 1)) ∧
      replies 7 (trace (step (0 : Nat)) sampleGenesis.world crowded) = [.id 1, .unit, .unlock 9060] ∧
      (step (0 : Nat) w' (.invoke everyone paysSeven (.withdraw 7 1))).2.result =
        some (.ok (.amount ⟨643, by decide, by decide⟩)) := by
  intro alone crowded w w'
  obtain ⟨hPortfolio, hReplies, hNext⟩ := portfolio_noninterference sampleGenesis sampleGenesis alone
    crowded 7 (· + 1) (fun _ _ h => by simpa using h) (by decide)
  have hAlone : replies 7 (trace (step (0 : Nat)) sampleGenesis.world alone) =
      [.id 0, .unit, .unlock 9060] := by decide
  have hAsks : (Call.withdraw 7 1).transfer (0 : Nat) w'.storage =
      some ⟨2, 0, 7, ⟨643, by decide, by decide⟩⟩ := by decide
  refine ⟨hPortfolio, hReplies.trans (by rw [hAlone]; decide), ?_⟩
  refine hNext (by decide) everyone everyone willing paysSeven (.withdraw 7 0) _ rfl rfl rfl ?_ (by rfl)
  intro t ht
  cases hAsks.symm.trans ht
  rfl

end XlmVault
