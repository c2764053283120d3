import Mathlib.Algebra.BigOperators.Group.Finset.Piecewise
import Mathlib.Algebra.Order.BigOperators.Group.Finset
import Mathlib.Algebra.Order.Group.Int

/-! Exact token balances and totals over keyed stores. Balances are integers:
a ledger that forbids overdrafts restricts which moves are made, not the type. -/

/-- Every holder's balance in every token. -/
abbrev Ledger (Token Holder : Type*) := Token → Holder → Int

namespace Ledger

variable {Token Holder : Type*} [DecidableEq Token] [DecidableEq Holder]

/-- Take the amount from the source and give exactly it to the destination. -/
def move (l : Ledger Token Holder) (token : Token) (source destination : Holder)
    (amount : Int) : Ledger Token Holder := fun t a =>
  l t a - (if t = token ∧ a = source then amount else 0) +
    (if t = token ∧ a = destination then amount else 0)

/-- A transfer between two holders adds its amount at the destination. -/
theorem move_destination (l : Ledger Token Holder) (token : Token)
    {source destination : Holder} (amount : Int) (h : source ≠ destination) :
    l.move token source destination amount token destination =
      l token destination + amount := by
  simp [move, h.symm]

/-- It takes its amount from the source. -/
theorem move_source (l : Ledger Token Holder) (token : Token)
    {source destination : Holder} (amount : Int) (h : source ≠ destination) :
    l.move token source destination amount token source = l token source - amount := by
  simp [move, h]

theorem move_other_token (l : Ledger Token Holder) {token t : Token}
    (source destination a : Holder) (amount : Int) (h : t ≠ token) :
    l.move token source destination amount t a = l t a := by
  simp [move, h]

/-- It leaves everybody else's balance as it was, in every token. -/
theorem move_bystander (l : Ledger Token Holder) (token t : Token)
    {source destination a : Holder} (amount : Int) (hSource : a ≠ source)
    (hDestination : a ≠ destination) :
    l.move token source destination amount t a = l t a := by
  simp [move, hSource, hDestination]

/-- The order of two moves does not matter. -/
theorem move_comm (l : Ledger Token Holder) (token token' : Token)
    (source source' destination destination' : Holder) (amount amount' : Int) :
    (l.move token source destination amount).move token' source' destination' amount' =
      (l.move token' source' destination' amount').move token source destination amount := by
  funext t a
  unfold move
  omega

/-- No balance of the token is negative and no total reaches the bound. Only
finitely many holders are summed at a time. -/
structure WithinSupply (l : Ledger Token Holder) (token : Token) (bound : Int) : Prop where
  nonneg : ∀ a, 0 ≤ l token a
  total : ∀ holders : Finset Holder, ∑ a ∈ holders, l token a < bound

omit [DecidableEq Token] in
/-- Two holders have less together than the whole supply. -/
theorem WithinSupply.pair {l : Ledger Token Holder} {token : Token} {bound : Int}
    (h : l.WithinSupply token bound) {a b : Holder} (hDiff : a ≠ b) :
    l token a + l token b < bound := by
  have hTotal := h.total {a, b}
  rw [Finset.sum_pair hDiff] at hTotal
  exact hTotal

/-- What a transfer does to the total of any set of holders: it leaves it as it
was where both parties belong to the set. -/
theorem sum_move (l : Ledger Token Holder) (token : Token) (source destination : Holder)
    (amount : Int) (holders : Finset Holder) :
    ∑ a ∈ holders, l.move token source destination amount token a =
      ∑ a ∈ holders, l token a - (if source ∈ holders then amount else 0) +
        if destination ∈ holders then amount else 0 := by
  unfold move
  simp only [true_and]
  rw [Finset.sum_add_distrib, Finset.sum_sub_distrib, Finset.sum_ite_eq', Finset.sum_ite_eq']

/-- A move that the source covers stays within the supply. -/
theorem WithinSupply.move {l : Ledger Token Holder} {token : Token} {bound : Int}
    (h : l.WithinSupply token bound) {source destination : Holder} {amount : Int}
    (hDiff : source ≠ destination) (hAmount : 0 ≤ amount) (hCovered : amount ≤ l token source) :
    (l.move token source destination amount).WithinSupply token bound where
  nonneg a := by
    by_cases hSource : a = source
    · rw [hSource, move_source l token amount hDiff]
      omega
    · by_cases hDestination : a = destination
      · have hOld := h.nonneg destination
        rw [hDestination, move_destination l token amount hDiff]
        omega
      · rw [move_bystander l token token amount hSource hDestination]
        exact h.nonneg a
  total holders := by
    have hOld := h.total holders
    rw [sum_move]
    by_cases hSource : source ∈ holders
    · rw [if_pos hSource]
      split_ifs <;> omega
    · have hMore := h.total (insert source holders)
      rw [Finset.sum_insert hSource] at hMore
      rw [if_neg hSource]
      split_ifs <;> omega

end Ledger

/-- The total of a measure over the entries a keyed store holds. -/
def storeTotal {Key Entry : Type*} [Fintype Key] (measure : Entry → Int)
    (store : Key → Option Entry) : Int :=
  ∑ key, (store key).elim 0 measure

section StoreTotal

variable {Key Entry : Type*} [Fintype Key] (measure : Entry → Int) (store : Key → Option Entry)

@[simp] theorem storeTotal_empty : storeTotal measure (fun _ : Key => none) = 0 := by
  simp [storeTotal]

/-- Writing one entry replaces that key's former contribution. -/
theorem storeTotal_update [DecidableEq Key] (key : Key) (entry : Entry) :
    storeTotal measure (Function.update store key (some entry)) =
      storeTotal measure store - (store key).elim 0 measure + measure entry := by
  have hSplit (f : Key → Option Entry) : storeTotal measure f =
      (f key).elim 0 measure + ∑ k ∈ Finset.univ.erase key, (f k).elim 0 measure :=
    (Finset.add_sum_erase _ _ (Finset.mem_univ key)).symm
  have hRest : ∑ k ∈ Finset.univ.erase key,
      (Function.update store key (some entry) k).elim 0 measure =
      ∑ k ∈ Finset.univ.erase key, (store k).elim 0 measure := by
    apply Finset.sum_congr rfl
    intro k hk
    rw [Function.update_of_ne (Finset.ne_of_mem_erase hk)]
  rw [hSplit, hSplit store, hRest, Function.update_self, Option.elim_some]
  omega

/-- A store of worthless entries is worth nothing. -/
theorem storeTotal_eq_zero (h : ∀ key entry, store key = some entry → measure entry = 0) :
    storeTotal measure store = 0 := by
  apply Finset.sum_eq_zero
  intro key _
  cases hEntry : store key with
  | none => rfl
  | some entry => exact h key entry hEntry

/-- Some keys are worth at most the total when no entry is worth less than 0. -/
theorem sum_le_storeTotal (h : ∀ key entry, store key = some entry → 0 ≤ measure entry)
    (keys : Finset Key) : ∑ key ∈ keys, (store key).elim 0 measure ≤ storeTotal measure store := by
  refine Finset.sum_le_univ_sum_of_nonneg fun key => ?_
  cases hEntry : store key with
  | none => exact le_refl 0
  | some entry => exact h key entry hEntry

/-- One entry is worth at most the total when no entry is worth less than 0. -/
theorem measure_le_storeTotal (h : ∀ key entry, store key = some entry → 0 ≤ measure entry)
    {key : Key} {entry : Entry} (hEntry : store key = some entry) :
    measure entry ≤ storeTotal measure store := by
  have hNonneg (k : Key) : 0 ≤ (store k).elim 0 measure := by
    cases hk : store k with
    | none => exact le_refl 0
    | some e => exact h k e hk
  calc
    measure entry = (store key).elim 0 measure := by rw [hEntry, Option.elim_some]
    _ ≤ storeTotal measure store :=
      Finset.single_le_sum (fun k _ => hNonneg k) (Finset.mem_univ key)

end StoreTotal
