import Throttle.Nanos
import Throttle.Word

/-! One limit of a bucket: how many tokens it holds, and how many come back in each period. -/

namespace Throttle

structure Bandwidth where
  capacity : Amount
  /-- Tokens that come back in each period. -/
  refill : UInt64
  /-- Nanoseconds. -/
  period : UInt64
  initial : Option UInt64 := none
  id : Option String := none
deriving DecidableEq, Repr

namespace Bandwidth

/-- Holds `tokens` and gives them back in `nanos`, cut to one word. -/
def perPeriod (tokens : Amount) (nanos : Nat) : Bandwidth :=
  { capacity := tokens, refill := tokens.val, period := UInt64.ofNatClamp nanos }

def perSecond (tokens : Amount) : Bandwidth := perPeriod tokens second

def perMinute (tokens : Amount) : Bandwidth := perPeriod tokens (60 * second)

def perHour (tokens : Amount) : Bandwidth := perPeriod tokens (3600 * second)

def nonRefilling (tokens : Amount) : Bandwidth := { perSecond tokens with refill := 0 }

/-- The tokens at the start: as many as fit, unless set. -/
def initialTokens (b : Bandwidth) : UInt64 := b.initial.getD b.capacity.val

theorem initialTokens_of_some {b : Bandwidth} {n : UInt64} (h : b.initial = some n) :
    b.initialTokens = n := by
  rw [initialTokens, h, Option.getD_some]

theorem initialTokens_of_none {b : Bandwidth} (h : b.initial = none) :
    b.initialTokens = b.capacity.val := by
  rw [initialTokens, h, Option.getD_none]

/-- The capacity as a balance. -/
def ceiling (b : Bandwidth) : Balance := b.capacity.balance

def rate (b : Bandwidth) : Float :=
  if b.period = 0 then 0.0 else b.refill.toFloat * 1e9 / b.period.toFloat

/-- Time can pass for it, and it starts within its capacity. -/
def Valid (b : Bandwidth) : Prop := b.period ≠ 0 ∧ b.initialTokens ≤ b.capacity.val

instance (b : Bandwidth) : Decidable b.Valid := inferInstanceAs (Decidable (_ ∧ _))

end Bandwidth
end Throttle
