/-! Machine words. A balance is a signed 64-bit word that stops at either end of its range, and
products of two words are taken in 128 bits, where a step that does not fit is a fault and never
wraps. -/

namespace Throttle

inductive Fault where
  | divisionByZero
  | overflow
deriving DecidableEq, Repr

def Fault.message : Fault → String
  | .divisionByZero => "attempt to divide by zero"
  | .overflow => "attempt to compute beyond 128 bits"

/-- A calculation that stopped at a fault, with the value as far as it got. -/
structure Interrupted (α : Type) where
  fault : Fault
  left : α
deriving DecidableEq, Repr

def Interrupted.map {α β : Type} (f : α → β) (i : Interrupted α) : Interrupted β :=
  ⟨i.fault, f i.left⟩

/-- A signed number of tokens, below zero while tokens are owed. -/
abbrev Balance := Int64

namespace Balance

/-- The sum, or the end of the range that it passes. -/
def add (a b : Balance) : Balance := Int64.ofIntClamp (a.toInt + b.toInt)

def sub (a b : Balance) : Balance := Int64.ofIntClamp (a.toInt - b.toInt)

def ofInt? (n : Int) : Option Balance :=
  if Int64.minValue.toInt ≤ n ∧ n ≤ Int64.maxValue.toInt then some (Int64.ofInt n) else none

end Balance

/-- A positive number of tokens. -/
structure Amount where
  val : UInt64
  positive : val ≠ 0
deriving DecidableEq, Repr

namespace Amount

def one : Amount := ⟨1, by decide⟩

def ofNat? (n : Nat) : Option Amount :=
  if positive : UInt64.ofNatClamp n ≠ 0 then some ⟨UInt64.ofNatClamp n, positive⟩ else none

/-- The amount as a balance; amounts beyond the largest balance count as that. -/
def balance (n : Amount) : Balance := Int64.ofIntClamp n.val.toNat

end Amount

namespace Wide

def unsigned (n : Nat) : Except Fault Nat :=
  if n < 0x100000000000000000000000000000000 then .ok n else .error .overflow

def signed (n : Int) : Except Fault Int :=
  if -0x80000000000000000000000000000000 ≤ n ∧ n < 0x80000000000000000000000000000000 then .ok n
  else .error .overflow

/-- A signed result read as an unsigned one. -/
def magnitude (n : Int) : Except Fault Nat :=
  if 0 ≤ n then .ok n.toNat else .error .overflow

def word (n : Nat) : Except Fault UInt64 :=
  if n < 0x10000000000000000 then .ok (UInt64.ofNat n) else .error .overflow

def divMod (n d : Nat) : Except Fault (Nat × Nat) :=
  if d = 0 then .error .divisionByZero else .ok (n / d, n % d)

end Wide
end Throttle
