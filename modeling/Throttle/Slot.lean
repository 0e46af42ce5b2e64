import Throttle.Nanos
import Throttle.Bandwidth

/-! The balance of one limit. Time is turned into whole tokens, and what is left of the period
is carried to the next refill, so that polling often loses nothing. -/

namespace Throttle

structure Slot where
  tokens : Balance
  /-- The latest reading up to which time has been turned into tokens. -/
  lastRefill : UInt64
  /-- Tokens times nanoseconds that do not make up a whole token yet. -/
  carry : UInt64
deriving DecidableEq, Repr

namespace Slot

def new (b : Bandwidth) (now : UInt64) : Slot :=
  ⟨min (Int64.ofIntClamp b.initialTokens.toNat) b.ceiling, now, 0⟩

/-- A full slot carries nothing. -/
def fillTo (s : Slot) (ceiling : Balance) : Slot := { s with tokens := ceiling, carry := 0 }

def accrue (s : Slot) (b : Bandwidth) (elapsed : UInt64) : Except Fault Slot := do
  let gained ← Wide.unsigned (elapsed.toNat * b.refill.toNat)
  let accrued ← Wide.unsigned (gained + s.carry.toNat)
  let (whole, rest) ← Wide.divMod accrued b.period.toNat
  let room ← Wide.signed (b.ceiling.toInt - s.tokens.toInt)
  let room ← Wide.magnitude room
  if room ≤ whole then
    return s.fillTo b.ceiling
  else
    let whole ← Wide.signed whole
    let tokens ← Wide.signed (s.tokens.toInt + whole)
    let carry ← Wide.word rest
    return { s with tokens := (Balance.ofInt? tokens).getD b.ceiling, carry }

/-- The slot with the time up to `now` turned into tokens. A reading before the last one adds
nothing; a fault leaves a slot for which the time has passed all the same. -/
def refill (s : Slot) (b : Bandwidth) (now : UInt64) : Except (Interrupted Slot) Slot :=
  let elapsed := UInt64.ofNat (now.toNat - s.lastRefill.toNat)
  let s := { s with lastRefill := max s.lastRefill now }
  if b.ceiling ≤ s.tokens then .ok (s.fillTo b.ceiling)
  else if elapsed = 0 ∨ b.refill = 0 then .ok s
  else (s.accrue b elapsed).mapError (⟨·, s⟩)

def add (s : Slot) (b : Bandwidth) (n : Balance) : Slot :=
  let tokens := s.tokens.add n
  if b.ceiling ≤ tokens then s.fillTo b.ceiling else { s with tokens }

def consume (s : Slot) (n : Balance) : Slot := { s with tokens := s.tokens.sub n }

/-- How long until the slot holds `n` tokens, its ceiling left aside. -/
def delay (s : Slot) (b : Bandwidth) (n : Balance) : Nanos :=
  if n ≤ s.tokens then Nanos.zero
  else if b.refill = 0 then Nanos.infinite
  else
    match Wide.unsigned ((n.toInt - s.tokens.toInt).toNat * b.period.toNat) with
    | .error _ => Nanos.infinite
    | .ok owed =>
      let owed := owed - s.carry.toNat
      Nanos.ofNat ((owed + b.refill.toNat - 1) / b.refill.toNat)

end Slot
end Throttle
