import Throttle.Stream.Supply

/-! A stream whose items take as many tokens as they weigh, and that delivers an item only once its
tokens are there. -/

namespace Throttle.Stream

inductive Hold (α : Type) where
  | nothing
  /-- The bucket could not supply its tokens. -/
  | unpaid (item : α)
  /-- Its tokens are taken, and it waits until they are there. -/
  | paid (item : α)
deriving DecidableEq, Repr

structure Weighted (σ α : Type) where
  source : σ
  bucket : Bucket
  delay : Option Nat := none
  hold : Hold α := .nothing

namespace Weighted

variable {σ α : Type}

/-- Reserves the tokens of an item; one that comes from the source is reported if it is held. -/
def deliver (w : Weighted σ α) (now : Nat) (item : α) (weight : Amount) (fresh : Bool) :
    Polling (Weighted σ α) α :=
  let out := supply weight w.bucket
  let w := { w with bucket := out.bucket, hold := .nothing }
  match out.answer with
  | .error fault => ⟨.error fault, w, out.events⟩
  | .ok .ready => ⟨.ok (.item item), w, out.events⟩
  | .ok (.later nanos) =>
    ⟨.ok .pending, { w with hold := .paid item, delay := some (now + nanos) }, out.events⟩
  | .ok .never =>
    let report := if fresh then [Event.held weight] else []
    ⟨.ok .pending, { w with hold := .unpaid item, delay := some (now + retryInterval) },
      out.events ++ report⟩

def poll (source : Source σ α) (weight : α → Amount) (timer : Timer) (now : Nat) (w : Weighted σ α) :
    Polling (Weighted σ α) α :=
  if w.delay.any fun deadline => !timer.due deadline now then ⟨.ok .pending, w, []⟩
  else
    let w := { w with delay := none }
    match w.hold with
    | .paid item => ⟨.ok (.item item), { w with hold := .nothing }, []⟩
    | .unpaid item => w.deliver now item (weight item) false
    | .nothing =>
      match source.poll now w.source with
      | (.item item, state) => { w with source := state }.deliver now item (weight item) true
      | (.ended, state) => ⟨.ok .ended, { w with source := state }, []⟩
      | (.pending, state) => ⟨.ok .pending, { w with source := state }, []⟩

end Weighted
end Throttle.Stream
