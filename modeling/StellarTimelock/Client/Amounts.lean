import StellarTimelock.Client.WholeStream

/-! The amounts in double precision: stroops become XLM by a division, are added
up, and become stroops again by a product that is rounded to an integer. Few
roundings of a whole number of stroops are undone by that. -/
namespace SorobanClient

open XlmVault Execution FloatingPoint

variable {Address : Type} {contract : Address}

theorem unit_binary64 : binary64.unit = 1 / 9007199254740992 := by
  unfold Format.unit binary64
  norm_num

theorem few_roundings {n : Nat} (h : n ≤ 2 ^ 51) : n * binary64.unit ≤ 1 / 4 := by
  have hCast : (n : Rat) ≤ 2251799813685248 := by exact_mod_cast h
  rw [unit_binary64]
  linarith

theorem smallestNormal_le : 2 * binary64.smallestNormal ≤ 1 / 10000000 := by
  have hSmall : binary64.smallestNormal ≤ (2 : Rat) ^ (-30 : Int) := by
    unfold Format.smallestNormal binary64
    exact zpow_le_zpow_right₀ (by norm_num) (by norm_num)
  have hPower : (2 : Rat) ^ (-30 : Int) = 1 / 1073741824 := by norm_num
  rw [hPower] at hSmall
  linarith

/-- A whole number of stroops in XLM, without any rounding. -/
def exactXlm (stroops : Nat) : Rat := stroops / stroopsPerXlm

theorem exactXlm_mul (s : Nat) : exactXlm s * stroopsPerXlm = s :=
  div_mul_cancel₀ _ (by decide)

theorem exactXlm_nonneg (s : Nat) : 0 ≤ exactXlm s := by
  unfold exactXlm stroopsPerXlm
  positivity

theorem exactXlm_sum (ns : List Nat) : (ns.map exactXlm).sum = exactXlm ns.sum := by
  induction ns with
  | nil => simp [exactXlm]
  | cons n ns ih =>
      rw [List.map_cons, List.sum_cons, ih, List.sum_cons]
      unfold exactXlm
      push_cast
      ring

/-- It is nothing, or large enough to be rounded well. -/
theorem exactXlm_size (s : Nat) : exactXlm s = 0 ∨ 2 * binary64.smallestNormal ≤ exactXlm s := by
  have hSmall := smallestNormal_le
  unfold exactXlm stroopsPerXlm
  rcases Nat.eq_zero_or_pos s with hZero | hPos
  · left
    rw [hZero]
    simp
  · right
    have hOne : (1 : Rat) ≤ s := by exact_mod_cast hPos
    linarith

section Double

attribute [local instance] Arithmetic.double

/-- An amount that the client shows is the quotient after two roundings. -/
theorem stroopsToXlm_within (s : Nat) : Within binary64 2 (stroopsToXlm s) (exactXlm s) := by
  have hExact : Within binary64 0 ((s : Int) : Rat) ((s : Int) : Rat) := by
    refine Within.exact ?_
    exact_mod_cast Nat.zero_le s
  have hSize : ((s : Int) : Rat) = 0 ∨ 2 * binary64.smallestNormal ≤ ((s : Int) : Rat) := by
    rcases Nat.eq_zero_or_pos s with hZero | hPos
    · left
      rw [hZero]
      simp
    · right
      have hOne : (1 : Rat) ≤ ((s : Int) : Rat) := by exact_mod_cast hPos
      linarith [smallestNormal_le]
  have hNumber := hExact.round (hExact.normal (by simp) hSize)
  have hQuotient : Within binary64 1 (binary64.round ((s : Int) : Rat) / stroopsPerXlm)
      (exactXlm s) := by
    unfold exactXlm
    rw [div_eq_mul_inv, div_eq_mul_inv]
    exact hNumber.scale (by unfold stroopsPerXlm; norm_num)
  exact hQuotient.round (hQuotient.normal (few_roundings (by norm_num)) (exactXlm_size s))

/-- Few roundings of an amount are undone by the conversion back to stroops. -/
theorem xlmToStroops_of_within {k s : Nat} {a : Rat} (h : Within binary64 k a (exactXlm s))
    (hFew : (k + 1) * s < 2 ^ 51) : xlmToStroops a = s := by
  have hScaled : Within binary64 k (a * stroopsPerXlm) s := by
    have hScale := h.scale (c := stroopsPerXlm) (by unfold stroopsPerXlm; norm_num)
    rw [exactXlm_mul] at hScale
    exact hScale
  have hProduct : Arithmetic.mul a stroopsPerXlm = binary64.round (a * stroopsPerXlm) := rfl
  unfold xlmToStroops mathRound
  rw [hProduct]
  rcases Nat.eq_zero_or_pos s with hZero | hPos
  · subst hZero
    have hNone : a * stroopsPerXlm = 0 := by
      have hZero := hScaled
      rw [Nat.cast_zero] at hZero
      exact hZero.zero
    rw [hNone, round_zero]
    norm_num
  · have hOne : (1 : Rat) ≤ s := by exact_mod_cast hPos
    have hBound : ((k : Rat) + 1) * s < 2 ^ 51 := by exact_mod_cast hFew
    have hCount : (k : Rat) + 1 < 2 ^ 51 := by nlinarith [Nat.cast_nonneg (α := Rat) k]
    have hSmall : k ≤ 2 ^ 51 := by
      have hLess : (k : Rat) < 2 ^ 51 := by linarith
      exact_mod_cast hLess.le
    have hRounded := hScaled.round
      (hScaled.normal (few_roundings hSmall) (Or.inr (by linarith [smallestNormal_le])))
    have hError := hRounded.abs_sub_le (by
      rw [unit_binary64]
      push_cast
      norm_num at hCount ⊢
      linarith)
    rw [unit_binary64] at hError
    push_cast at hError
    have hClose : |binary64.round (a * stroopsPerXlm) - s| < 1 / 2 := by
      refine lt_of_le_of_lt hError ?_
      norm_num at hBound ⊢
      linarith
    obtain ⟨hLow, hHigh⟩ := abs_lt.mp hClose
    rw [Int.floor_eq_iff]
    push_cast
    constructor <;> linarith

/-- What the client shows for few stroops is converted back to them. -/
theorem xlmToStroops_stroopsToXlm {s : Nat} (h : 3 * s < 2 ^ 51) :
    xlmToStroops (stroopsToXlm s) = s :=
  xlmToStroops_of_within (stroopsToXlm_within s) h

/-- An amount below 750 trillion stroops survives the conversions: typed as a
decimal of XLM, which the language reads as the nearest number, it is submitted
as that many stroops; and so is an amount that the client itself has shown. -/
theorem amount_survives {s : Nat} (h : 3 * s < 2 ^ 51) :
    xlmToStroops (binary64.round (s / stroopsPerXlm)) = s ∧ xlmToStroops (stroopsToXlm s) = s := by
  have hExact : Within binary64 0 (exactXlm s) (exactXlm s) := Within.exact (exactXlm_nonneg s)
  have hTyped := hExact.round (hExact.normal (by simp) (exactXlm_size s))
  exact ⟨xlmToStroops_of_within hTyped (by omega), xlmToStroops_stroopsToXlm h⟩

theorem amount_survives_million :
    xlmToStroops (stroopsToXlm 12345678901234) = 12345678901234 :=
  (amount_survives (s := 12345678901234) (by decide)).2

/-- An amount of the contract is a whole number of stroops, so it survives. -/
theorem xlmToStroops_amount {n : Int} (hNonneg : 0 ≤ n) (hFits : 3 * n < 2 ^ 51) :
    xlmToStroops (stroopsToXlm n) = n := by
  have hSurvives := xlmToStroops_stroopsToXlm (s := n.toNat) (by omega)
  rwa [Int.toNat_of_nonneg hNonneg] at hSurvives

/-! Sums of amounts. -/

theorem forall₂_within (ns : List Nat) :
    List.Forall₂ (Within binary64 2) (ns.map fun n : Nat => stroopsToXlm n) (ns.map exactXlm) := by
  induction ns with
  | nil => exact .nil
  | cons n ns ih => exact .cons (stroopsToXlm_within n) ih

/-- A sum of amounts costs one more rounding for each of them. -/
theorem sumFrom_within {ns : List Nat} (hFew : 2 + ns.length ≤ 2 ^ 51) :
    Within binary64 (2 + ns.length) (Arithmetic.sumFrom 0 (ns.map fun n : Nat => stroopsToXlm n))
      (exactXlm ns.sum) := by
  have hSizes : ∀ x ∈ ns.map exactXlm, x = 0 ∨ 2 * binary64.smallestNormal ≤ x := by
    intro x hx
    obtain ⟨n, -, rfl⟩ := List.mem_map.mp hx
    exact exactXlm_size n
  have hStart : Within binary64 2 0 0 := (Within.exact (le_refl 0)).mono (Nat.zero_le 2)
  have hSum := Within.sum (forall₂_within ns) hSizes (le_refl 2) hStart (Or.inl rfl)
    (few_roundings (by rwa [List.length_map]))
  rw [List.length_map, zero_add, exactXlm_sum] at hSum
  exact hSum

/-- Nothing but nothings adds up to nothing. -/
theorem sumFrom_zeros {ns : List Nat} (h : ∀ n ∈ ns, n = 0) :
    Arithmetic.sumFrom 0 (ns.map fun n : Nat => stroopsToXlm n) = 0 := by
  induction ns with
  | nil => rfl
  | cons n ns ih =>
      have hNone : stroopsToXlm (n : Nat) = 0 := by
        rw [h n List.mem_cons_self]
        exact stroopsToXlm_zero
      have hAdd : Arithmetic.add 0 (stroopsToXlm (n : Nat)) = 0 := by
        rw [hNone]
        unfold Arithmetic.add
        rw [add_zero, Arithmetic.round_zero]
      have hRest := ih fun m hm => h m (List.mem_cons_of_mem n hm)
      unfold Arithmetic.sumFrom at hRest ⊢
      rw [List.map_cons, List.foldl_cons, hAdd, hRest]

/-- A sum of amounts is converted back to the sum of the stroops, as long as
that times the number of the amounts stays below `2 ^ 51`. -/
theorem xlmToStroops_sumFrom {ns : List Nat} (hFew : (ns.length + 3) * ns.sum < 2 ^ 51) :
    xlmToStroops (Arithmetic.sumFrom 0 (ns.map fun n : Nat => stroopsToXlm n)) = ns.sum := by
  rcases Nat.eq_zero_or_pos ns.sum with hZero | hPos
  · have hSurvives := xlmToStroops_stroopsToXlm (s := 0) (by decide)
    rw [Nat.cast_zero, stroopsToXlm_zero] at hSurvives
    rw [sumFrom_zeros (List.sum_eq_zero_iff.mp hZero), hZero, hSurvives]
    rfl
  · have hCount : ns.length + 3 ≤ (ns.length + 3) * ns.sum := Nat.le_mul_of_pos_right _ hPos
    refine xlmToStroops_of_within (sumFrom_within (by omega)) ?_
    have hThree : 2 + ns.length + 1 = ns.length + 3 := by omega
    rw [hThree]
    exact hFew

/-! Runs of the contract. -/

/-- The amounts of the contract are whole numbers of stroops. -/
theorem map_toNat_stroopsToXlm {ns : List Int} (h : ∀ n ∈ ns, 0 ≤ n) :
    (ns.map Int.toNat).map (fun n : Nat => stroopsToXlm n) = ns.map stroopsToXlm := by
  rw [List.map_map]
  apply List.map_congr_left
  intro n hn
  show stroopsToXlm ((n.toNat : Nat) : Int) = stroopsToXlm n
  rw [Int.toNat_of_nonneg (h n hn)]

theorem sum_toNat {ns : List Int} (h : ∀ n ∈ ns, 0 ≤ n) :
    (((ns.map Int.toNat).sum : Nat) : Int) = ns.sum := by
  induction ns with
  | nil => rfl
  | cons n ns ih =>
      rw [List.map_cons, List.sum_cons, List.sum_cons, Nat.cast_add,
        ih fun m hm => h m (List.mem_cons_of_mem n hm), Int.toNat_of_nonneg (h n List.mem_cons_self)]

/-- What is added up in double precision over amounts of the contract is
converted back to their sum. -/
theorem xlmToStroops_amounts {ns : List Int} (h : ∀ n ∈ ns, 0 ≤ n)
    (hFew : (ns.length + 3) * ns.sum < 2 ^ 51) :
    xlmToStroops (Arithmetic.sumFrom 0 (ns.map stroopsToXlm)) = ns.sum := by
  have hSum := sum_toNat h
  have hBound : ((ns.map Int.toNat).length + 3) * (ns.map Int.toNat).sum < 2 ^ 51 := by
    rw [List.length_map]
    rw [← hSum] at hFew
    exact_mod_cast hFew
  rw [← map_toNat_stroopsToXlm h, xlmToStroops_sumFrom hBound, hSum]

variable [DecidableEq Address]

/-- After every run whose events parse, the balance that the events fallback
adds up in double precision is converted back to the stored number of stroops,
as long as that number times the number of payments into the vault stays below
`2 ^ 51`. -/
theorem rounded_replay_exact (key : StrKey Address) (g : Genesis contract)
    (as : List (Action contract)) {events : List ParsedEvent}
    (hEvents : parseEvents key (emitted (trace (step contract) g.world as)) = .ok events)
    {id : UInt64} {v : XlmVault.Vault Address}
    (hVault : (final (step contract) g.world as).storage.vault id = some v)
    (hFew : ((paidIn (receipts (trace (step contract) g.world as)) id).length + 3) *
      v.balance.val < 2 ^ 51) :
    ∃ a ∈ replay events (key.encode v.owner), a.vaultId = idText id ∧
      a.withdrawn = v.withdrawn ∧ xlmToStroops a.balanceXlm = v.balance.val := by
  have hStreamed := Streamed.reachable key g as
  have hSettled := Settled.reachable g as
  obtain ⟨_, hFound⟩ := hStreamed.replayed hEvents hVault
  have hForm := hStreamed.sound.wellFormed id v hVault
  rw [accumOf_stored hVault] at hFound
  refine ⟨_, List.mem_of_find?_eq_some hFound, rfl, rfl, ?_⟩
  show xlmToStroops (if v.withdrawn then 0 else tally _ id) = v.balance.val
  cases hDone : v.withdrawn with
  | true =>
      have hNone : xlmToStroops (Arithmetic.sumFrom 0 (([] : List Int).map stroopsToXlm)) = 0 :=
        xlmToStroops_amounts (fun _ hn => absurd hn List.not_mem_nil) (by decide)
      rw [hForm.empty_iff_withdrawn.mpr hDone, if_pos rfl]
      exact hNone
  | false =>
      have hSum := hSettled.balance id v hVault hDone
      have hNonneg : ∀ n ∈ paidIn (receipts (trace (step contract) g.world as)) id, 0 ≤ n :=
        fun n hn => Int.le_of_lt (hSettled.positive id n hn)
      rw [← hSum] at hFew ⊢
      exact xlmToStroops_amounts hNonneg hFew

/-- Three doubles make up the one balance, and the other vault is empty. -/
theorem rounded_replay_exact_busy :
    (∃ a ∈ replay busyEvents (numbered.encode 7), a.vaultId = idText 0 ∧ a.withdrawn = false ∧
      xlmToStroops a.balanceXlm = 871) ∧
    ∃ a ∈ replay busyEvents (numbered.encode 7), a.vaultId = idText 2 ∧ a.withdrawn = true ∧
      xlmToStroops a.balanceXlm = 0 :=
  ⟨rounded_replay_exact numbered sampleGenesis busyRun parse_busyRun
      (v := ⟨0, 7, "Rent", ⟨871, by decide, by decide⟩, 1767355200, 1767200000, false⟩) rfl
      (by decide),
    rounded_replay_exact numbered sampleGenesis busyRun parse_busyRun
      (v := ⟨2, 7, "Tax", 0, 1767200050, 1767200000, true⟩) rfl (by decide)⟩

end Double

end SorobanClient
