/-! Spans of time in whole nanoseconds. The largest word stands for a wait that never ends, and
spans that do not fit become it. -/

namespace Throttle

/-- Nanoseconds in a second. -/
def second : Nat := 1000000000

def millisecond : Nat := 1000000

structure Nanos where
  val : UInt64
deriving DecidableEq, Repr

namespace Nanos

def zero : Nanos := ⟨0⟩

def infinite : Nanos := ⟨0xffffffffffffffff⟩

instance : Inhabited Nanos := ⟨zero⟩

/-- The span of `n` nanoseconds, infinite when they do not fit a word. -/
def ofNat (n : Nat) : Nanos := ⟨UInt64.ofNatClamp n⟩

def isZero (d : Nanos) : Bool := d == zero

def isInfinite (d : Nanos) : Bool := d == infinite

def finite? (d : Nanos) : Option Nat := if d.isInfinite then none else some d.val.toNat

instance : LE Nanos := ⟨fun a b => a.val ≤ b.val⟩

instance : LT Nanos := ⟨fun a b => a.val < b.val⟩

instance (a b : Nanos) : Decidable (a ≤ b) := inferInstanceAs (Decidable (a.val ≤ b.val))

instance (a b : Nanos) : Decidable (a < b) := inferInstanceAs (Decidable (a.val < b.val))

instance : Max Nanos := maxOfLe

instance : Ord Nanos := ⟨fun a b => compare a.val b.val⟩

end Nanos

def secondsAndNanos (n : Nat) : Nat × Nat := (n / second, n % second)

end Throttle
