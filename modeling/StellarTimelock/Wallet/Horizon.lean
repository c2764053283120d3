import Mathlib.Algebra.Order.Ring.Rat
import Mathlib.Order.Bounds.Basic
import Mathlib.Tactic.Linarith

/-! The balance of an account as Horizon reports it, and the part of it that the
wallet calls spendable. The wallet subtracts all liabilities of the native
balance; only those of offers that sell it stand in the way of a payment. -/
namespace Horizon

inductive HorizonState where
  | funded
  | unfunded
  | error
  deriving DecidableEq, Repr

def baseReserveXlm : Rat := 1 / 2

def accountBaseUnits : Int := 2

/-- What the wallet knows of the balance of an account. -/
structure HorizonBalance where
  publicKey : String
  state : HorizonState
  total : Rat
  reserve : Rat
  liabilities : Rat
  spendable : Rat
  /-- The older name of `spendable`. -/
  available : Rat
  subentries : Int
  fetchedAt : Int
  error : Option String := none
  deriving DecidableEq

/-- A decimal text as `Number` reads it; `none` is a text it cannot read as a
finite number. -/
abbrev Numeral := Option Rat

structure HorizonBalanceRow where
  assetType : String
  balance : Numeral
  buyingLiabilities : Option Numeral := none
  sellingLiabilities : Option Numeral := none
  deriving DecidableEq

structure HorizonAccount where
  subentryCount : Option Int := none
  numSponsoring : Option Int := none
  numSponsored : Option Int := none
  balances : List HorizonBalanceRow
  deriving DecidableEq

/-- What the request comes to. An exception, of the request or while the body
is read, has a message. -/
inductive Reply where
  | thrown (message : String)
  | answered (status : Nat) (json : Except String HorizonAccount)

/-- `res.ok`. -/
def Ok (status : Nat) : Prop := 200 ≤ status ∧ status ≤ 299

instance (status : Nat) : Decidable (Ok status) :=
  inferInstanceAs (Decidable (200 ≤ status ∧ status ≤ 299))

def computeReserveXlm (subentries numSponsoring numSponsored : Int) : Rat :=
  let units := accountBaseUnits + max 0 subentries + max 0 numSponsoring - max 0 numSponsored
  (max 0 units : Int) * baseReserveXlm

def emptyResult (publicKey : String) (now : Int) (state : HorizonState) (error : Option String) :
    HorizonBalance :=
  { publicKey, state
    total := 0
    reserve := if state = .funded then accountBaseUnits * baseReserveXlm else 0
    liabilities := 0
    spendable := 0
    available := 0
    subentries := 0
    fetchedAt := now
    error }

/-- The first balance of the account that is in the native asset. -/
def HorizonAccount.native (json : HorizonAccount) : Option HorizonBalanceRow :=
  json.balances.find? fun b => b.assetType = "native"

/-- A missing liability is zero; one that cannot be read makes the sum
unreadable. -/
def HorizonBalanceRow.liabilities (row : HorizonBalanceRow) : Numeral := do
  let selling ← row.sellingLiabilities.getD (some 0)
  let buying ← row.buyingLiabilities.getD (some 0)
  return selling + buying

def fetchHorizonBalance (publicKey : String) (now : Int) (reply : Reply) : HorizonBalance :=
  match reply with
  | .thrown message => emptyResult publicKey now .error (some message)
  | .answered status json =>
      if status = 404 then emptyResult publicKey now .unfunded none
      else if ¬ Ok status then
        emptyResult publicKey now .error (some ("Horizon " ++ toString status))
      else
        match json with
        | .error message => emptyResult publicKey now .error (some message)
        | .ok json =>
            let total := (json.native.elim (some 0) (·.balance)).getD 0
            let liabilities := (json.native.elim (some 0) (·.liabilities)).getD 0
            let subentries := json.subentryCount.getD 0
            let reserve := computeReserveXlm subentries (json.numSponsoring.getD 0)
              (json.numSponsored.getD 0)
            let spendable := max 0 (total - reserve - liabilities)
            { publicKey
              state := .funded
              total, reserve, liabilities, spendable
              available := spendable
              subentries
              fetchedAt := now }

/-! The rule of the protocol. -/

/-- The account entry of the ledger, as far as it bounds a payment. -/
structure AccountEntry where
  balance : Rat
  sellingLiabilities : Rat
  buyingLiabilities : Rat
  subentries : Nat
  numSponsoring : Nat
  numSponsored : Nat
  balance_nonneg : 0 ≤ balance
  selling_nonneg : 0 ≤ sellingLiabilities
  buying_nonneg : 0 ≤ buyingLiabilities

namespace AccountEntry

variable (entry : AccountEntry)

/-- What the account has to keep. -/
def minimumBalance : Rat :=
  max 0 (((2 + entry.subentries + entry.numSponsoring - entry.numSponsored : Int) : Rat) * (1 / 2))

/-- A payment of this amount leaves the minimum balance beside what is promised
to offers. -/
def CanSend (amount : Rat) : Prop :=
  0 ≤ amount ∧ (amount = 0 ∨
    entry.minimumBalance ≤ entry.balance - entry.sellingLiabilities - amount)

/-- The documented formula. -/
def spendable : Rat := max 0 (entry.balance - entry.minimumBalance - entry.sellingLiabilities)

/-- The formula is the rule: no larger amount can be sent. -/
theorem spendable_isGreatest : IsGreatest {amount | entry.CanSend amount} entry.spendable := by
  constructor
  · refine ⟨le_max_left _ _, ?_⟩
    unfold spendable
    rcases le_total (entry.balance - entry.minimumBalance - entry.sellingLiabilities) 0 with
      hNone | hSome
    · exact Or.inl (max_eq_left hNone)
    · right
      rw [max_eq_right hSome]
      linarith
  · rintro amount ⟨hNonneg, hZero | hKept⟩
    · rw [hZero]
      exact le_max_left _ _
    · apply le_max_of_le_right
      linarith

end AccountEntry

/-- Horizon reports this entry. A quantity that is zero may be left out. -/
structure Reports (json : HorizonAccount) (entry : AccountEntry) : Prop where
  native : ∃ row, json.native = some row ∧ row.balance = some entry.balance ∧
    row.sellingLiabilities.getD (some 0) = some entry.sellingLiabilities ∧
    row.buyingLiabilities.getD (some 0) = some entry.buyingLiabilities
  subentries : json.subentryCount.getD 0 = entry.subentries
  numSponsoring : json.numSponsoring.getD 0 = entry.numSponsoring
  numSponsored : json.numSponsored.getD 0 = entry.numSponsored

/-- The reserve is the one the protocol asks for. -/
theorem computeReserveXlm_eq (entry : AccountEntry) :
    computeReserveXlm entry.subentries entry.numSponsoring entry.numSponsored =
      entry.minimumBalance := by
  unfold computeReserveXlm AccountEntry.minimumBalance accountBaseUnits baseReserveXlm
  simp only [Int.natCast_nonneg, max_eq_right]
  rcases le_total (0 : Int) (2 + entry.subentries + entry.numSponsoring - entry.numSponsored) with
    hUnits | hUnits
  · rw [max_eq_right hUnits, max_eq_right]
    have hCast : (0 : Rat) ≤
        ((2 + entry.subentries + entry.numSponsoring - entry.numSponsored : Int) : Rat) :=
      Int.cast_nonneg hUnits
    linarith
  · rw [max_eq_left hUnits, max_eq_left]
    · simp
    · have hCast :
          ((2 + entry.subentries + entry.numSponsoring - entry.numSponsored : Int) : Rat) ≤ 0 :=
        Int.cast_nonpos.mpr hUnits
      linarith

/-- What the wallet computes for the entry. -/
theorem fetched_spendable {json : HorizonAccount} {entry : AccountEntry} (h : Reports json entry)
    {status : Nat} (hStatus : Ok status) (publicKey : String) (now : Int) :
    (fetchHorizonBalance publicKey now (.answered status (.ok json))).spendable =
      max 0 (entry.balance - entry.minimumBalance -
        (entry.sellingLiabilities + entry.buyingLiabilities)) := by
  obtain ⟨row, hNative, hBalance, hSelling, hBuying⟩ := h.native
  have hFound : status ≠ 404 := by
    rintro rfl
    exact absurd hStatus (by decide)
  have hLiabilities : row.liabilities =
      some (entry.sellingLiabilities + entry.buyingLiabilities) := by
    unfold HorizonBalanceRow.liabilities
    rw [hSelling, hBuying]
    rfl
  unfold fetchHorizonBalance
  simp only [hFound, if_false, hStatus, not_true_eq_false, hNative, Option.elim_some, hBalance,
    hLiabilities, Option.getD_some, h.subentries, h.numSponsoring, h.numSponsored,
    computeReserveXlm_eq]

/-- For every account that Horizon reports, the wallet shows the documented
formula, which is the greatest amount that can be sent, if and only if nothing
is promised to offers that buy the native asset, or nothing can be sent. -/
theorem spendable_iff {json : HorizonAccount} {entry : AccountEntry} (h : Reports json entry)
    {status : Nat} (hStatus : Ok status) (publicKey : String) (now : Int) :
    let shown := fetchHorizonBalance publicKey now (.answered status (.ok json))
    (shown.spendable = entry.spendable ∧
      IsGreatest {amount | entry.CanSend amount} shown.spendable) ↔
      entry.buyingLiabilities = 0 ∨
        entry.balance ≤ entry.minimumBalance + entry.sellingLiabilities := by
  intro shown
  have hShown : shown.spendable = max 0 (entry.balance - entry.minimumBalance -
      (entry.sellingLiabilities + entry.buyingLiabilities)) :=
    fetched_spendable h hStatus publicKey now
  have hBuying := entry.buying_nonneg
  constructor
  · rintro ⟨hSame, -⟩
    by_contra hNot
    push Not at hNot
    obtain ⟨hSome, hLeft⟩ := hNot
    have hPositive : 0 < entry.buyingLiabilities := lt_of_le_of_ne hBuying (Ne.symm hSome)
    have hFormula : entry.spendable =
        entry.balance - entry.minimumBalance - entry.sellingLiabilities :=
      max_eq_right (by linarith)
    -- The shown amount falls short by the buying liabilities, or is zero.
    have hLess : shown.spendable < entry.spendable := by
      rw [hShown, hFormula]
      exact max_lt (by linarith) (by linarith)
    exact absurd hSame (ne_of_lt hLess)
  · intro hCondition
    have hSame : shown.spendable = entry.spendable := by
      rw [hShown]
      unfold AccountEntry.spendable
      rcases hCondition with hNone | hNothing
      · rw [hNone, add_zero]
      · rw [max_eq_left (by linarith), max_eq_left (by linarith)]
    refine ⟨hSame, ?_⟩
    rw [hSame]
    exact entry.spendable_isGreatest

/-- An account with ten XLM and one trustline, which offers to buy four. -/
def buyer : AccountEntry where
  balance := 10
  sellingLiabilities := 0
  buyingLiabilities := 4
  subentries := 1
  numSponsoring := 0
  numSponsored := 0
  balance_nonneg := by decide
  selling_nonneg := by decide
  buying_nonneg := by decide

def buyerAccount : HorizonAccount where
  subentryCount := some 1
  balances := [⟨"native", some 10, some (some 4), some (some 0)⟩]

theorem buyer_reported : Reports buyerAccount buyer :=
  ⟨⟨_, rfl, rfl, rfl, rfl⟩, rfl, rfl, rfl⟩

/-- It could send 8.5 and is shown 4.5. -/
theorem buyer_shown_less :
    let shown := fetchHorizonBalance "G" 0 (.answered 200 (.ok buyerAccount))
    Reports buyerAccount buyer ∧ shown.state = .funded ∧ shown.spendable = 9 / 2 ∧
      buyer.spendable = 17 / 2 ∧ buyer.CanSend (17 / 2) ∧
        ¬ IsGreatest {amount | buyer.CanSend amount} shown.spendable := by
  intro shown
  have hShown : shown.spendable = 9 / 2 := by decide +kernel
  have hFormula : buyer.spendable = 17 / 2 := by decide +kernel
  have hSend : buyer.CanSend (17 / 2) := by
    rw [← hFormula]
    exact buyer.spendable_isGreatest.1
  refine ⟨buyer_reported, rfl, hShown, hFormula, hSend, ?_⟩
  intro hGreatest
  have hLe := hGreatest.2 hSend
  rw [hShown] at hLe
  exact absurd hLe (by decide +kernel)

/-- The same account without its offer. -/
def saver : AccountEntry := { buyer with buyingLiabilities := 0, buying_nonneg := le_refl _ }

def saverAccount : HorizonAccount where
  subentryCount := some 1
  balances := [⟨"native", some 10, none, none⟩]

theorem saver_shown_all :
    let shown := fetchHorizonBalance "G" 0 (.answered 200 (.ok saverAccount))
    shown.spendable = saver.spendable ∧
      IsGreatest {amount | saver.CanSend amount} shown.spendable := by
  have hReports : Reports saverAccount saver := ⟨⟨_, rfl, rfl, rfl, rfl⟩, rfl, rfl, rfl⟩
  exact (spendable_iff hReports (by decide) "G" 0).mpr (Or.inl rfl)

end Horizon
