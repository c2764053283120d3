import Mathlib.Data.List.GetD
import Mathlib.Data.List.Range

/-! A book of savings locks: money that its owner has put away until a time.
A lock is known by its place in the book; only its owner can add to it, put its
time off, or, once that has come, take all of it back. -/
namespace LockBook

structure Lock (Owner : Type) where
  owner : Owner
  name : String
  opened : Nat
  due : Nat
  /-- 0 once it has been paid out. -/
  amount : Nat
  deriving DecidableEq

inductive Deed (Owner : Type) where
  | openLock (owner : Owner) (name : String) (amount due : Nat)
  | topUp (owner : Owner) (lock amount : Nat)
  | putOff (owner : Owner) (lock seconds : Nat)
  | payOut (owner : Owner) (lock : Nat)
  deriving DecidableEq

/-- The answer to a deed that is carried out. -/
inductive Answer where
  | done
  | opened (lock : Nat)
  | due (time : Nat)
  | paid (amount : Nat)
  deriving DecidableEq, Repr

/-- The book after a deed, its answer, and the money that came from the owner;
money that went to the owner counts negative. -/
structure Entry (Owner : Type) where
  locks : List (Lock Owner)
  answer : Answer
  flow : Int

variable {Owner : Type}

def Deed.owner : Deed Owner → Owner
  | .openLock owner _ _ _ => owner
  | .topUp owner _ _ => owner
  | .putOff owner _ _ => owner
  | .payOut owner _ => owner

variable [DecidableEq Owner]

/-- The lock at a place of the book, if it is this owner's and not paid out. -/
def held (locks : List (Lock Owner)) (owner : Owner) (lock : Nat) : Option (Lock Owner) :=
  locks[lock]?.filter fun l => l.owner = owner ∧ 0 < l.amount

/-- A deed at a time, unless the book refuses it. -/
def Deed.carryOut (now : Nat) (locks : List (Lock Owner)) : Deed Owner → Option (Entry Owner)
  | .openLock owner name amount due =>
      if 0 < amount ∧ now < due then
        some ⟨locks ++ [⟨owner, name, now, due, amount⟩], .opened locks.length, amount⟩
      else none
  | .topUp owner lock amount =>
      if 0 < amount then
        (held locks owner lock).map fun l =>
          ⟨locks.set lock { l with amount := l.amount + amount }, .done, amount⟩
      else none
  | .putOff owner lock seconds =>
      if 0 < seconds then
        (held locks owner lock).map fun l =>
          ⟨locks.set lock { l with due := l.due + seconds }, .due (l.due + seconds), 0⟩
      else none
  | .payOut owner lock =>
      ((held locks owner lock).filter fun l => l.due ≤ now).map fun l =>
        ⟨locks.set lock { l with amount := 0 }, .paid l.amount, -l.amount⟩

/-- The places of an owner's locks, in order. -/
def owned (locks : List (Lock Owner)) (owner : Owner) : List Nat :=
  (List.range locks.length).filter fun i => (locks[i]?.map (·.owner)) = some owner

/-- The lock that an owner can act on is the entry under that number, if it is
the owner's and still holds something; a lock that was paid out stays in the
book with amount zero. -/
theorem held_eq_some {locks : List (Lock Owner)} {owner : Owner} {lock : Nat} {l : Lock Owner} :
    held locks owner lock = some l ↔ locks[lock]? = some l ∧ l.owner = owner ∧ 0 < l.amount := by
  simp [held, Option.filter_eq_some_iff]

end LockBook
