import StellarTimelock.Contract.Portfolio
import StellarTimelock.Contract.Solvency

/-! The contract neither takes nor gives: what a user holds outside and inside
it changes only by transfers outside. All of it can be had back once the locks
are due, in any order. -/
namespace XlmVault

open Execution

variable {Address : Type} {contract : Address}

/-- The money in an address's vaults. -/
def Storage.savings (s : Storage Address) (a : Address) : Int :=
  ((s.portfolio a).map fun v => v.balance.val).sum

/-- The portfolio of an address lists the ids of the owner's index, in the order
of the index. -/
theorem portfolio_ids {s : Storage Address} (h : Allocated s) (a : Address) :
    (s.portfolio a).map (·.vaultId) = s.listOwned a := by
  have hKey (id : UInt64) (hListed : id ∈ s.listOwned a) :
      (s.vault id).map (·.vaultId) = some id := by
    obtain ⟨v, hVault, _⟩ := (h.indexed a id).mp hListed
    rw [hVault, Option.map_some, h.keyed id v hVault]
  rw [Storage.portfolio, List.map_filterMap, List.filterMap_congr hKey, List.filterMap_some]

theorem portfolio_nodup {s : Storage Address} (h : Allocated s) (a : Address) :
    ((s.portfolio a).map (·.vaultId)).Nodup := by
  rw [portfolio_ids h]
  exact (h.increasing a).imp (fun hLess => UInt64.ne_of_lt hLess)

/-- Amending the one vault of an id changes a sum by that vault alone. -/
theorem sum_amend (f : Vault Address → Int) {p : List (Vault Address)}
    (hNodup : (p.map (·.vaultId)).Nodup) {v : Vault Address} (hMem : v ∈ p) (v' : Vault Address) :
    ((amend v.vaultId (fun _ => v') p).map f).sum = (p.map f).sum - f v + f v' := by
  induction p with
  | nil => cases hMem
  | cons u p ih =>
      rw [List.map_cons, List.nodup_cons] at hNodup
      rcases List.mem_cons.mp hMem with rfl | hLater
      · have hRest : amend v.vaultId (fun _ => v') p = p := by
          refine amend_absent fun u hThere hSame => hNodup.1 ?_
          rw [← hSame]
          exact List.mem_map_of_mem hThere
        have hHead : amend v.vaultId (fun _ => v') (v :: p) = v' :: p := by
          show (if v.vaultId = v.vaultId then v' else v) :: amend v.vaultId (fun _ => v') p = v' :: p
          rw [if_pos rfl, hRest]
        rw [hHead, List.map_cons, List.map_cons, List.sum_cons, List.sum_cons]
        omega
      · have hOther : u.vaultId ≠ v.vaultId := by
          intro hSame
          rw [hSame] at hNodup
          exact hNodup.1 (List.mem_map_of_mem hLater)
        have hHead : amend v.vaultId (fun _ => v') (u :: p) =
            u :: amend v.vaultId (fun _ => v') p := by
          show (if u.vaultId = v.vaultId then v' else u) :: amend v.vaultId (fun _ => v') p = _
          rw [if_neg hOther]
        rw [hHead, List.map_cons, List.map_cons, List.sum_cons, List.sum_cons, ih hNodup.2 hLater]
        omega

/-- Rewriting a vault changes the savings of its owner by the difference. -/
theorem savings_putVault {w : World Address} (h : Allocated w.storage) {id : UInt64}
    {v : Vault Address} (hVault : w.storage.vault id = some v) (v' : Vault Address) (a : Address)
    [Decidable (v.owner = a)] :
    (w.putVault id v').storage.savings a =
      w.storage.savings a + if v.owner = a then v'.balance.val - v.balance.val else 0 := by
  have hKey := h.keyed id v hVault
  unfold Storage.savings
  rw [portfolio_putVault h hVault]
  split_ifs with hOwner
  · have hMem : v ∈ w.storage.portfolio a := (mem_portfolio h).mpr ⟨hKey ▸ hVault, hOwner⟩
    rw [← hKey, sum_amend _ (portfolio_nodup h a) hMem]
    omega
  · have hAbsent : ∀ u ∈ w.storage.portfolio a, u.vaultId ≠ id := by
      intro u hMem hId
      obtain ⟨hStored, hMine⟩ := (mem_portfolio h).mp hMem
      rw [hId, hVault] at hStored
      cases hStored
      exact hOwner hMine
    rw [amend_absent hAbsent, Int.add_zero]

/-- Savings are a sum over the ids of an owner. -/
theorem savings_eq_sum {s : Storage Address} (h : Allocated s) (a : Address) :
    s.savings a = ∑ id ∈ (s.listOwned a).toFinset, (s.vault id).elim 0 (fun v => v.balance.val) := by
  have hList (ids : List UInt64) : ((ids.filterMap s.vault).map fun v => v.balance.val).sum =
      (ids.map fun id => (s.vault id).elim 0 (fun v => v.balance.val)).sum := by
    induction ids with
    | nil => rfl
    | cons id ids ih =>
        cases hVault : s.vault id with
        | none => simpa [hVault] using ih
        | some v => simp [hVault, ih]
  have hOnce : (s.listOwned a).Nodup := (h.increasing a).imp fun hLess => UInt64.ne_of_lt hLess
  rw [List.sum_toFinset _ hOnce]
  exact hList (s.listOwned a)

/-- The savings of different owners are in different vaults. -/
theorem sum_savings_le_locked {w : World Address} (h : w.Sound) (owners : Finset Address) :
    ∑ a ∈ owners, w.storage.savings a ≤ w.storage.locked := by
  classical
  have hDisjoint : (owners : Set Address).PairwiseDisjoint fun a => (w.storage.listOwned a).toFinset := by
    intro a _ b _ hDiff
    show Disjoint (w.storage.listOwned a).toFinset (w.storage.listOwned b).toFinset
    rw [Finset.disjoint_left]
    intro id ha hb
    obtain ⟨v, hVault, hOwner⟩ := (h.allocated.indexed a id).mp (List.mem_toFinset.mp ha)
    obtain ⟨u, hu, hOther⟩ := (h.allocated.indexed b id).mp (List.mem_toFinset.mp hb)
    cases hVault.symm.trans hu
    exact hDiff (hOwner.symm.trans hOther)
  calc ∑ a ∈ owners, w.storage.savings a
      = ∑ a ∈ owners, ∑ id ∈ (w.storage.listOwned a).toFinset,
          (w.storage.vault id).elim 0 (fun v => v.balance.val) :=
        Finset.sum_congr rfl fun a _ => savings_eq_sum h.allocated a
    _ = ∑ id ∈ owners.biUnion fun a => (w.storage.listOwned a).toFinset,
          (w.storage.vault id).elim 0 (fun v => v.balance.val) := (Finset.sum_biUnion hDisjoint).symm
    _ ≤ w.storage.locked := sum_le_storeTotal (fun v : Vault Address => v.balance.val)
        w.storage.vault (fun id v hVault => (h.wellFormed id v hVault).balance_nonneg) _

variable [DecidableEq Address]

theorem savings_create {w : World Address} (h : Allocated w.storage) {owner : Address}
    {id next : UInt64} {v : Vault Address} (hFresh : w.storage.vault id = none) (a : Address) :
    ((w.allocate owner id next).putVault id v).storage.savings a =
      w.storage.savings a + if owner = a then v.balance.val else 0 := by
  unfold Storage.savings
  rw [portfolio_create h hFresh a]
  split_ifs with hOwner <;> simp

/-- What an address holds of a token, outside the contract and in it. -/
def World.wealth (token a : Address) (w : World Address) : Int :=
  w.ledger token a + if w.storage.token = some token then w.storage.savings a else 0

/-- What a transfer outside the contract brings an address, or costs it. -/
def Observation.received (token a : Address) : Observation contract → Int
  | .moved t =>
      if t.token = token then
        (if t.destination = a then (t.amount : Int) else 0) - if t.source = a then (t.amount : Int) else 0
      else 0
  | _ => 0

/-- What a move changes in the balance of anyone: the destination gains the
amount and the source loses it, and who is both keeps the balance. -/
theorem move_self (l : Ledger Address Address) {configured source destination token a : Address}
    {amount : Int} : l.move configured source destination amount token a =
      l token a + if configured = token then
        (if destination = a then amount else 0) - if source = a then amount else 0 else 0 := by
  unfold Ledger.move
  by_cases hToken : configured = token
  · simp only [hToken, true_and, if_true, eq_comm (a := a)]
    omega
  · simp only [hToken, Ne.symm hToken, false_and, if_false]
    omega

/-- A transfer between an owner and the contract that its books follow leaves
everybody as wealthy as before. -/
theorem wealth_settled {w : World Address} {s : Storage Address} {now : UInt64}
    {configured source destination owner a : Address} {amount change : Int} (ha : a ≠ contract)
    (hToken : w.storage.token = some configured) (hToken' : s.token = some configured)
    (hSavings : s.savings a = w.storage.savings a + if owner = a then change else 0)
    (hParties : source = owner ∧ destination = contract ∧ amount = change ∨
      source = contract ∧ destination = owner ∧ amount = -change) (token : Address) :
    World.wealth token a ⟨s, w.ledger.move configured source destination amount, now⟩ =
      w.wealth token a := by
  unfold World.wealth
  simp only [hToken, hToken', hSavings, move_self, Option.some.injEq]
  by_cases hSame : configured = token
  · simp only [hSame, if_true]
    rcases hParties with ⟨rfl, rfl, rfl⟩ | ⟨rfl, rfl, rfl⟩
    · simp only [Ne.symm ha, if_false]
      omega
    · simp only [Ne.symm ha, if_false]
      split_ifs <;> omega
  · simp only [hSame, if_false]
    omega

/-- One step makes an address wealthier by what it is sent outside. -/
theorem wealth_step {w w' : World Address} {o : Observation contract} (h : Allocated w.storage)
    (hEffect : Effect contract w w' o) {a : Address} (ha : a ≠ contract) (token : Address) :
    w'.wealth token a = w.wealth token a + o.received token a := by
  cases hEffect with
  | failed => exact (Int.add_zero _).symm
  | initialised configured hUnset =>
      have hListed : w.storage.listOwned a = [] := by
        rw [Storage.listOwned, (h.unset hUnset).2.2 a]
        rfl
      have hEmpty : (w.initialise configured).storage.savings a = 0 := by
        have hPortfolio : (w.initialise configured).storage.portfolio a = [] := by
          show (w.storage.listOwned a).filterMap _ = []
          rw [hListed]
          rfl
        rw [Storage.savings, hPortfolio]
        rfl
      unfold World.wealth
      rw [hEmpty, hUnset]
      simp [World.initialise, Observation.received]
  | created configured owner name d u id next hOwner hAmount hTime hToken hId hNext =>
      have hFresh : w.storage.vault id = none := by
        rw [hId]
        exact h.fresh hToken
      refine Eq.trans ?_ (Int.add_zero _).symm
      refine wealth_settled ha hToken ?_ (savings_create h hFresh a) (Or.inl ⟨rfl, rfl, rfl⟩) token
      exact hToken
  | deposited configured caller vaultId amount balance v hCaller hAmount hVault hOwner hLive hToken
      hBalance =>
      subst hOwner
      have hSum := I128.checkedAdd_eq_some.mp hBalance
      have hChange : balance.val - v.balance.val = amount.val := by omega
      have hSavings := savings_putVault h hVault { v with balance } a
      rw [hChange] at hSavings
      refine Eq.trans ?_ (Int.add_zero _).symm
      refine wealth_settled ha hToken ?_ hSavings (Or.inl ⟨rfl, rfl, rfl⟩) token
      exact hToken
  | extended caller vaultId seconds u v hSeconds hVault hOwner hLive hUnlock =>
      have hSavings := savings_putVault h hVault { v with unlockTimestamp := u } a
      rw [Int.sub_self, ite_self, Int.add_zero] at hSavings
      refine Eq.trans ?_ (Int.add_zero _).symm
      unfold World.wealth
      rw [hSavings]
      rfl
  | withdrawn configured caller vaultId v hCaller hVault hOwner hLive hTime hToken =>
      subst hOwner
      have hSavings := savings_putVault h hVault { v with balance := 0, withdrawn := true } a
      rw [I128.val_zero, Int.zero_sub] at hSavings
      refine Eq.trans ?_ (Int.add_zero _).symm
      refine wealth_settled ha hToken ?_ hSavings
        (Or.inr ⟨rfl, rfl, (Int.neg_neg v.balance.val).symm⟩) token
      exact hToken
  | advanced => exact (Int.add_zero _).symm
  | outside t =>
      unfold World.wealth Observation.received
      simp only [move_self]
      omega

/-- What an address was sent outside the contract, less what it sent. -/
def netReceived (token a : Address) (past : List (Observation contract)) : Int :=
  (past.map (Observation.received token a)).sum

theorem wealth_run {w : World Address} (h : Allocated w.storage) {a : Address} (ha : a ≠ contract)
    (token : Address) (as : List (Action contract)) :
    (final (step contract) w as).wealth token a =
      w.wealth token a + netReceived token a (trace (step contract) w as) := by
  induction as generalizing w with
  | nil => simp [netReceived]
  | cons act as ih =>
      have hEffect := step_effect contract w act
      simp only [final, trace, netReceived, List.map_cons, List.sum_cons]
      rw [ih (h.effect hEffect), wealth_step h hEffect ha token, netReceived]
      omega

/-- After every run, what anybody else than the contract holds in a token,
outside and in vaults, is what it held at the start and was sent outside. -/
theorem wealth_conserved (g : Genesis contract) (as : List (Action contract)) (token a : Address)
    (ha : a ≠ contract) :
    (final (step contract) g.world as).wealth token a =
      g.ledger token a + netReceived token a (trace (step contract) g.world as) := by
  rw [wealth_run (Allocated.genesis g) ha token as]
  simp [World.wealth, Genesis.world]

/-- Address 7 still has what it had: what is locked came out of its account. -/
theorem wealth_conserved_sample :
    (final (step (0 : Nat)) sampleGenesis.world
        (aloneRun ⟨610, by decide, by decide⟩ ⟨33, by decide, by decide⟩)).wealth 1 7 =
      sampleGenesis.ledger 1 7 + netReceived 1 7 (trace (step (0 : Nat)) sampleGenesis.world
        (aloneRun ⟨610, by decide, by decide⟩ ⟨33, by decide, by decide⟩)) :=
  wealth_conserved sampleGenesis _ 1 7 (by decide)

/-! Leaving. -/

/-- Withdrawals of these vaults by these owners, one after the other. -/
def withdrawals (auth : Authorisation contract) (client : TokenClient Address)
    (exits : List (Address × UInt64)) : List (Action contract) :=
  exits.map fun p => .invoke auth client (.withdraw p.1 p.2)

/-- The token honours positive transfers out of the contract that the contract
can cover. -/
def PaysOut (contract : Address) (client : TokenClient Address) : Prop :=
  ∀ l (t : Transfer Address), t.source = contract → 0 < t.amount.val →
    t.amount.val ≤ l t.token contract → client.accepts l t = true

/-- A due withdrawal by its owner succeeds and empties that vault alone. -/
theorem withdraw_step (g : Genesis contract) (as : List (Action contract))
    {auth : Authorisation contract} {client : TokenClient Address} (hPays : PaysOut contract client)
    {id : UInt64} {v : Vault Address} (hAuth : auth.grants v.owner = true)
    (hVault : (final (step contract) g.world as).storage.vault id = some v)
    (hLive : v.withdrawn = false)
    (hDue : v.unlockTimestamp ≤ (final (step contract) g.world as).now) :
    let w := final (step contract) g.world as
    let outcome := step contract w (.invoke auth client (.withdraw v.owner id))
    outcome.1.storage.vault = Function.update w.storage.vault id (some v.payOut) ∧
      outcome.1.now = w.now ∧ outcome.2.result = some (.ok (.amount v.balance)) := by
  intro w outcome
  have hSound : w.Sound := World.Sound.reachable g as
  obtain ⟨token, hToken⟩ := hSound.allocated.vault_token hVault
  have hAccepts : client.accepts w.ledger ⟨token, contract, v.owner, v.balance⟩ = true :=
    hPays _ _ rfl ((hSound.wellFormed id v hVault).balance_pos hLive) (balance_le_ledger g as hVault hToken)
  have hPerforms : Performs contract client w (.withdraw v.owner id) ⟨.amount v.balance, id, v.payOut,
      none, some ⟨token, contract, v.owner, v.balance⟩⟩ :=
    ⟨v, hVault, rfl, hLive, hDue, token, hToken, hAccepts, rfl⟩
  obtain ⟨hWorld, hResult⟩ := step_performs rfl hAuth hPerforms
  exact ⟨by rw [hWorld]; rfl, by rw [hWorld]; rfl, hResult⟩

/-- Due withdrawals of different vaults by their owners all succeed, in any
order, and empty those vaults alone. -/
theorem withdrawals_succeed (g : Genesis contract) (as : List (Action contract))
    {auth : Authorisation contract} {client : TokenClient Address} (hPays : PaysOut contract client)
    {exits : List (Address × UInt64)} (hOnce : (exits.map Prod.snd).Nodup)
    (hAuth : ∀ p ∈ exits, auth.grants p.1 = true)
    (hDue : ∀ p ∈ exits, ∃ v, (final (step contract) g.world as).storage.vault p.2 = some v ∧
      v.owner = p.1 ∧ v.withdrawn = false ∧
      v.unlockTimestamp ≤ (final (step contract) g.world as).now) :
    let w := final (step contract) g.world as
    (∀ o ∈ trace (step contract) w (withdrawals auth client exits),
      ∃ amount, o.result = some (.ok (.amount amount))) ∧
    ∀ id, (final (step contract) w (withdrawals auth client exits)).storage.vault id =
      if id ∈ exits.map Prod.snd then (w.storage.vault id).map Vault.payOut else w.storage.vault id := by
  induction exits generalizing as with
  | nil => exact ⟨fun o hMem => (by cases hMem), fun id => rfl⟩
  | cons p exits ih =>
      obtain ⟨v, hVault, hOwner, hLive, hTime⟩ := hDue p List.mem_cons_self
      rw [List.map_cons, List.nodup_cons] at hOnce
      have hGranted : auth.grants v.owner = true := hOwner ▸ hAuth p List.mem_cons_self
      obtain ⟨hStore, hNow, hResult⟩ := withdraw_step g as hPays hGranted hVault hLive hTime
      rw [hOwner] at hStore hNow hResult
      have hLater : ∀ q ∈ exits, ∃ u,
          (final (step contract) g.world (as ++ [.invoke auth client (.withdraw p.1 p.2)])).storage.vault
            q.2 = some u ∧ u.owner = q.1 ∧ u.withdrawn = false ∧ u.unlockTimestamp ≤
          (final (step contract) g.world (as ++ [.invoke auth client (.withdraw p.1 p.2)])).now := by
        intro q hMem
        obtain ⟨u, hStored, hRest⟩ := hDue q (List.mem_cons_of_mem _ hMem)
        have hOther : q.2 ≠ p.2 := fun hSame => hOnce.1 (hSame ▸ List.mem_map_of_mem hMem)
        rw [final_concat, hStore, hNow, Function.update_of_ne hOther]
        exact ⟨u, hStored, hRest⟩
      have hTail := ih (as ++ [.invoke auth client (.withdraw p.1 p.2)]) hOnce.2
        (fun q hMem => hAuth q (List.mem_cons_of_mem _ hMem)) hLater
      simp only [final_concat] at hTail
      constructor
      · intro o hMem
        rcases List.mem_cons.mp hMem with rfl | hRest
        · exact ⟨v.balance, hResult⟩
        · exact hTail.1 o hRest
      · intro id
        refine (hTail.2 id).trans ?_
        rw [hStore]
        by_cases hId : id = p.2
        · subst hId
          rw [if_neg hOnce.1, Function.update_self, if_pos (by simp), hVault]
          rfl
        · have hListed : id ∈ (p :: exits).map Prod.snd ↔ id ∈ exits.map Prod.snd := by
            rw [List.map_cons, List.mem_cons, or_iff_right hId]
          rw [Function.update_of_ne hId]
          simp only [hListed]

omit [DecidableEq Address] in
/-- Nothing is locked once every vault is empty. -/
theorem locked_eq_zero {s : Storage Address} (h : ∀ id v, s.vault id = some v → v.balance.val = 0) :
    s.locked = 0 := storeTotal_eq_zero (fun v : Vault Address => v.balance.val) s.vault h

omit [DecidableEq Address] in
theorem savings_eq_zero {s : Storage Address} (h : ∀ id v, s.vault id = some v → v.balance.val = 0)
    (a : Address) : s.savings a = 0 := by
  refine List.sum_eq_zero fun n hMem => ?_
  obtain ⟨v, hOwned, rfl⟩ := List.mem_map.mp hMem
  obtain ⟨id, _, hVault⟩ := List.mem_filterMap.mp hOwned
  exact h id v hVault

/-- A step that is no outside transfer brings nobody anything. -/
theorem received_of_quiet {past : List (Observation contract)}
    (h : ∀ o ∈ past, ∀ t, o ≠ .moved t) (token a : Address) :
    netReceived token a past = 0 ∧ directTransfers token past = 0 := by
  have hQuiet : ∀ o ∈ past, o.received token a = 0 ∧ o.sentDirectly token = 0 := by
    intro o hMem
    cases o with
    | invoked r => exact ⟨rfl, rfl⟩
    | advanced timestamp => exact ⟨rfl, rfl⟩
    | moved t => exact absurd rfl (h _ hMem t)
  constructor
  · refine List.sum_eq_zero fun n hSum => ?_
    obtain ⟨o, hMem, rfl⟩ := List.mem_map.mp hSum
    exact (hQuiet o hMem).1
  · refine List.sum_eq_zero fun n hSum => ?_
    obtain ⟨o, hMem, rfl⟩ := List.mem_map.mp hSum
    exact (hQuiet o hMem).2

/-- In every reachable state, once the last live lock is due, the live vaults
can be withdrawn in any order: every withdrawal succeeds, no vault keeps
anything, the contract is left with what outsiders sent it and everybody else
has all that was in their vaults. -/
theorem everyone_can_leave (g : Genesis contract) (as : List (Action contract)) (token : Address)
    (hToken : (final (step contract) g.world as).storage.token = some token) (later : UInt64)
    (hNow : (final (step contract) g.world as).now ≤ later)
    (auth : Authorisation contract) (client : TokenClient Address) (hPays : PaysOut contract client)
    (exits : List (Address × UInt64)) (hOnce : (exits.map Prod.snd).Nodup)
    (hAuth : ∀ p ∈ exits, auth.grants p.1 = true)
    (hLive : ∀ a id, (a, id) ∈ exits ↔ ∃ v,
      (final (step contract) g.world as).storage.vault id = some v ∧ v.owner = a ∧
        v.withdrawn = false)
    (hDue : ∀ id v, (final (step contract) g.world as).storage.vault id = some v →
      v.withdrawn = false → v.unlockTimestamp ≤ later) :
    let w := final (step contract) g.world as
    let leaving := .advance later :: withdrawals auth client exits
    let w' := final (step contract) w leaving
    (∀ o ∈ (trace (step contract) w leaving).tail, ∃ amount, o.result = some (.ok (.amount amount))) ∧
      (∀ id v, w'.storage.vault id = some v → v.withdrawn = true ∧ v.balance.val = 0) ∧
      w'.ledger token contract = directTransfers token (trace (step contract) g.world as) ∧
      ∀ a, a ≠ contract → w'.ledger token a = w.ledger token a + w.storage.savings a := by
  intro w leaving w'
  have hSound : w.Sound := World.Sound.reachable g as
  have hAdvanced : (step contract w (.advance later)).1 = { w with now := later } := by
    simp only [step, if_pos hNow, w]
  have hBefore : final (step contract) g.world (as ++ [.advance later]) = { w with now := later } := by
    rw [final_concat]
    exact hAdvanced
  have hReady : ∀ p ∈ exits, ∃ v,
      (final (step contract) g.world (as ++ [.advance later])).storage.vault p.2 = some v ∧
        v.owner = p.1 ∧ v.withdrawn = false ∧
        v.unlockTimestamp ≤ (final (step contract) g.world (as ++ [.advance later])).now := by
    intro p hMem
    obtain ⟨v, hVault, hOwner, hStill⟩ := (hLive p.1 p.2).mp hMem
    rw [hBefore]
    exact ⟨v, hVault, hOwner, hStill, hDue p.2 v hVault hStill⟩
  obtain ⟨hResults, hStore⟩ := withdrawals_succeed g (as ++ [.advance later]) hPays hOnce hAuth hReady
  rw [hBefore] at hResults hStore
  have hFinal : w' = final (step contract) { w with now := later } (withdrawals auth client exits) := by
    show final (step contract) (step contract w (.advance later)).1 _ = _
    rw [hAdvanced]
  have hTrace : (trace (step contract) w leaving) = .advanced later ::
      trace (step contract) { w with now := later } (withdrawals auth client exits) := by
    show (step contract w (.advance later)).2 :: trace (step contract)
      (step contract w (.advance later)).1 (withdrawals auth client exits) = _
    rw [hAdvanced]
    simp only [step, if_pos hNow, w]
  have hQuiet : ∀ o ∈ trace (step contract) w leaving, ∀ t, o ≠ .moved t := by
    intro o hMem t hMoved
    rw [hTrace] at hMem
    rcases List.mem_cons.mp hMem with rfl | hLater
    · cases hMoved
    · obtain ⟨amount, hResult⟩ := hResults o hLater
      rw [hMoved] at hResult
      cases hResult
  have hEmpty : ∀ id v, w'.storage.vault id = some v → v.withdrawn = true ∧ v.balance.val = 0 := by
    intro id v hVault
    rw [hFinal, hStore] at hVault
    split_ifs at hVault with hListed
    · obtain ⟨u, _, rfl⟩ := Option.map_eq_some_iff.mp hVault
      exact ⟨rfl, rfl⟩
    · have hGone : v.withdrawn = true := by
        cases hWithdrawn : v.withdrawn with
        | true => rfl
        | false =>
            have hMem := (hLive v.owner id).mpr ⟨v, hVault, rfl, hWithdrawn⟩
            exact absurd (List.mem_map_of_mem hMem) hListed
      exact ⟨hGone, (hSound.wellFormed id v hVault).empty_iff_withdrawn.mpr hGone⟩
  have hKept : w'.storage.token = some token := by
    have hWhole := token_eq_first_request g (as ++ leaving)
    rw [final_append, trace_append, List.findSome?_append, ← token_eq_first_request g as, hToken] at hWhole
    exact hWhole
  refine ⟨?_, hEmpty, ?_, ?_⟩
  · rw [hTrace]
    exact hResults
  · have hWhole := Solvent.reachable g (as ++ leaving)
    rw [final_append, trace_append] at hWhole
    have hSolvent := hWhole.ledger_eq hKept
    rw [locked_eq_zero fun id v hVault => (hEmpty id v hVault).2, directTransfers, List.map_append,
      List.sum_append] at hSolvent
    have hNone := (received_of_quiet hQuiet token contract).2
    unfold directTransfers at hNone ⊢
    rw [hNone, Int.add_zero, Int.zero_add] at hSolvent
    exact hSolvent
  · intro a ha
    have hWealth := wealth_run hSound.allocated ha token leaving
    rw [(received_of_quiet hQuiet token a).1, Int.add_zero] at hWealth
    unfold World.wealth at hWealth
    rw [if_pos hKept, if_pos hToken, savings_eq_zero fun id v hVault => (hEmpty id v hVault).2,
      Int.add_zero] at hWealth
    exact hWealth

theorem payingClient_pays : PaysOut (0 : Nat) payingClient := by
  intro l t hSource _ hCovered
  show decide (t.amount.val ≤ l t.token t.source) = true
  rw [hSource]
  exact decide_eq_true hCovered

/-- Address 7 leaves, a minute after its lock was due. -/
theorem everyone_can_leave_sample :
    let w := final (step (0 : Nat)) sampleGenesis.world
      (aloneRun ⟨610, by decide, by decide⟩ ⟨33, by decide, by decide⟩)
    let w' := final (step (0 : Nat)) w
      (.advance 9120 :: withdrawals everyone payingClient [(7, 0)])
    w'.ledger 1 7 = w.ledger 1 7 + w.storage.savings 7 := by
  intro w w'
  have hVault : w.storage.vault 0 =
      some ⟨0, 7, "Roof", ⟨643, by decide, by decide⟩, 9060, 0, false⟩ := by decide
  have hOnly (id : UInt64) (v : Vault Nat) (h : w.storage.vault id = some v) : id = 0 := by
    obtain ⟨n, hCounter, hStored⟩ := (Allocated.reachable sampleGenesis
      (aloneRun ⟨610, by decide, by decide⟩ ⟨33, by decide, by decide⟩)).counted 1 (by decide)
    have hOne : (1 : UInt64) = n := Option.some.inj ((by decide : w.storage.nextId = some 1).symm.trans hCounter)
    have hLess : id < n := (hStored id).mp (by rw [h]; rfl)
    rw [← hOne, UInt64.lt_iff_toNat_lt] at hLess
    exact UInt64.toNat_inj.mp (Nat.lt_one_iff.mp hLess)
  have hLive : ∀ a id, (a, id) ∈ [((7 : Nat), (0 : UInt64))] ↔
      ∃ v, w.storage.vault id = some v ∧ v.owner = a ∧ v.withdrawn = false := by
    intro a id
    rw [List.mem_singleton, Prod.mk.injEq]
    constructor
    · rintro ⟨rfl, rfl⟩
      exact ⟨_, hVault, rfl, rfl⟩
    · rintro ⟨v, hStored, rfl, _⟩
      have hId := hOnly id v hStored
      subst hId
      rw [hVault] at hStored
      cases hStored
      exact ⟨rfl, rfl⟩
  have hDue : ∀ id v, w.storage.vault id = some v → v.withdrawn = false →
      v.unlockTimestamp ≤ 9120 := by
    intro id v hStored _
    have hId := hOnly id v hStored
    subst hId
    rw [hVault] at hStored
    cases hStored
    decide
  exact (everyone_can_leave sampleGenesis _ 1 (by decide) 9120 (by decide) everyone payingClient
    payingClient_pays [(7, 0)] (by simp) (by decide) hLive hDue).2.2.2 7 (by decide)

end XlmVault
