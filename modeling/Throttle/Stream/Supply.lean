import Throttle.Bucket
import Throttle.Stream.Source
import Throttle.Stream.Timer

/-! What the streams on a bucket share: the reservation of an item's tokens, and the pause before
an item is tried again that the bucket cannot supply. -/

namespace Throttle.Stream

structure Polling (τ α : Type) where
  answer : Except Fault (Polled α)
  stream : τ
  events : List Event

/-- How long an item is held before its tokens are asked for again: 100 ms. -/
def retryInterval : Nat := 100 * millisecond

inductive Supply where
  /-- The tokens were there and are taken. -/
  | ready
  /-- The tokens are taken and will be there after this many nanoseconds. -/
  | later (nanos : Nat)
  /-- They will never be there; nothing is taken. -/
  | never
deriving DecidableEq, Repr

def Supply.ofDelay (delay : Nanos) : Supply :=
  match delay.finite? with
  | none => .never
  | some 0 => .ready
  | some nanos => .later nanos

def supply (n : Amount) : Activity (Except Fault Supply) := fun b =>
  let out := b.perform (Operation.reserve n .infinite)
  ⟨out.answer.map Supply.ofDelay, out.bucket, out.events⟩

end Throttle.Stream
