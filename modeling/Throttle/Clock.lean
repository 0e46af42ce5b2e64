import Throttle.Nanos

/-! Where a bucket reads the time. No clock is trusted to go forward. -/

namespace Throttle

inductive Clock where
  /-- Shows what it was set to. -/
  | manual (now : UInt64)
  /-- Shows how far a counter stands beyond where it stood when the clock was made. -/
  | counter (origin value : UInt64)
  /-- Never moves. -/
  | still
  /-- Shows the nanoseconds since an instant of the time line that timers run on. -/
  | timeline (origin now : Nat)
deriving DecidableEq, Repr

namespace Clock

def now : Clock → UInt64
  | .manual now => now
  | .counter origin value => UInt64.ofNat (value.toNat - origin.toNat)
  | .still => 0
  | .timeline origin now => UInt64.ofNatClamp (now - origin)

inductive Move where
  | set (n : UInt64)
  | advance (n : UInt64)
  | rewind (n : UInt64)
  /-- Forward by a span of nanoseconds that may exceed one word. -/
  | forward (span : Nat)
deriving DecidableEq, Repr

/-- What a move makes of a value, where `fit` brings a span down to one word. -/
def Move.apply (fit : Nat → UInt64) (value : UInt64) : Move → UInt64
  | .set n => n
  | .advance n => value + n
  | .rewind n => value - n
  | .forward span => value + fit span

/-- A span too long for one word moves a manual clock by the largest word, and goes round a
counter. -/
def move (m : Move) : Clock → Clock
  | .manual now => .manual (m.apply UInt64.ofNatClamp now)
  | .counter origin value => .counter origin (m.apply UInt64.ofNat value)
  | c => c

def follow (instant : Nat) : Clock → Clock
  | .timeline origin _ => .timeline origin instant
  | c => c

end Clock
end Throttle
