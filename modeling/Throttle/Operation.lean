import Throttle.Account
import Throttle.Event

/-! What callers ask of a bucket. An operation looks at an account that has been refilled to the
time of the call and decides whether the account it leaves behind is to be published. -/

namespace Throttle

/-- An answer, the account to publish with it, if any, and what to report once the call returns. -/
structure Decision (α : Type) where
  answer : α
  publish : Option Account
  reports : List Event

namespace Decision

def commit {α : Type} (answer : α) (account : Account) (reports : List Event := []) : Decision α :=
  ⟨answer, some account, reports⟩

def skip {α : Type} (answer : α) (reports : List Event := []) : Decision α := ⟨answer, none, reports⟩

def map {α β : Type} (f : α → β) (d : Decision α) : Decision β := { d with answer := f d.answer }

end Decision

abbrev Operation (α : Type) := Account → Decision α

structure Probe where
  consumed : Bool
  remaining : Balance
  wait : Nanos
deriving DecidableEq, Repr

namespace Operation

def consume (n : Amount) : Operation Bool := fun a =>
  if a.available < n.balance then .skip false else .commit true (a.consume n.balance)

def consumeUpTo (limit : Amount) : Operation Nat := fun a =>
  let taken := min limit.balance a.available
  if taken ≤ 0 then .skip 0 else .commit taken.toInt.toNat (a.consume taken)

def probe (n : Amount) : Operation Probe := fun a =>
  if a.available < n.balance then .skip ⟨false, a.available, a.delay n.balance⟩
  else .commit ⟨true, a.available - n.balance, .zero⟩ (a.consume n.balance)

/-- Takes `n` tokens now that are there after the wait it answers, unless that exceeds `maxWait`. -/
def reserve (n : Amount) (maxWait : Nanos) : Operation Nanos := fun a =>
  let delay := a.delay n.balance
  if delay.isZero then .commit .zero (a.consume n.balance)
  else if delay.isInfinite ∨ maxWait < delay then .skip .infinite
  else .commit delay (a.consume n.balance) [.reserved n.balance delay]

def add (n : Amount) : Operation Unit := fun a => .commit () (a.add n.balance)

/-- Puts `c` in force if it is compatible with what is; answers why not. -/
def replace (c : Configuration) : Operation (Option Incompatibility) := fun a =>
  match a.configuration.incompatibility? c with
  | none => .commit none (a.reconfigure c) [.reconfigured c]
  | some e => .skip (some e) [.refused e]

def available : Operation Balance := fun a => .skip a.available

end Operation
end Throttle
