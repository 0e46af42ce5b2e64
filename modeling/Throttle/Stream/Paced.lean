import Throttle.Stream.Supply

/-! A stream that takes one token for each item and delivers at once. When that has led into debt,
the next item is not asked for before the debt is repaid. -/

namespace Throttle.Stream

structure Paced (σ α : Type) where
  source : σ
  bucket : Bucket
  /-- The deadline of the latest wait. -/
  delay : Option Nat := none
  /-- An item that the bucket could not supply. -/
  held : Option α := none

namespace Paced

variable {σ α : Type}

/-- Reserves the token of an item; one that comes from the source is reported if it is held. -/
def deliver (p : Paced σ α) (now : Nat) (item : α) (fresh : Bool) : Polling (Paced σ α) α :=
  let out := supply .one p.bucket
  let p := { p with bucket := out.bucket }
  match out.answer with
  | .error fault => ⟨.error fault, p, out.events⟩
  | .ok .ready => ⟨.ok (.item item), { p with delay := none }, out.events⟩
  | .ok (.later nanos) => ⟨.ok (.item item), { p with delay := some (now + nanos) }, out.events⟩
  | .ok .never =>
    let report := if fresh then [Event.held none] else []
    ⟨.ok .pending, { p with held := some item, delay := some (now + retryInterval) },
      out.events ++ report⟩

def poll (source : Source σ α) (timer : Timer) (now : Nat) (p : Paced σ α) : Polling (Paced σ α) α :=
  if p.delay.any fun deadline => !timer.due deadline now then ⟨.ok .pending, p, []⟩
  else
    match p.held with
    | some item => { p with held := none }.deliver now item false
    | none =>
      match source.poll now p.source with
      | (.item item, state) => { p with source := state }.deliver now item true
      | (.ended, state) => ⟨.ok .ended, { p with source := state }, []⟩
      | (.pending, state) => ⟨.ok .pending, { p with source := state }, []⟩

end Paced
end Throttle.Stream
