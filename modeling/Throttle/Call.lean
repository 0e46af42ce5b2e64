import Throttle.Edition
import Throttle.Operation

/-! One call on a shared bucket: it reads the clock, loads the published edition, works on a copy,
and starts again from the winner whenever another caller publishes first. -/

namespace Throttle

structure Call (α : Type) where
  operation : Operation α
  reading : UInt64
  /-- The edition that the copy started from. -/
  previous : Edition
  work : Account
  /-- How often the call has lost so far. -/
  attempt : UInt32

inductive Progress (α : Type) where
  | running (call : Call α)
  | returned (answer : α)
  | faulted (fault : Fault)

/-- A step of a call: how far it got, what is published now, and what was reported. -/
structure Turn (α : Type) where
  progress : Progress α
  published : Edition
  events : List Event

namespace Call

def load {α : Type} (operation : Operation α) (reading : UInt64) (published : Edition) : Call α :=
  ⟨operation, reading, published, published.account, 0⟩

def nextAttempt (attempt : UInt32) : UInt32 := UInt32.ofNatClamp (attempt.toNat + 1)

/-- Refills the copy, decides, and swaps it in if that is the decision. -/
def tryOnce {α : Type} (c : Call α) (s : Strategy) (published : Edition) : Turn α :=
  match c.work.refill c.reading with
  | .error fault => ⟨.faulted fault, published, []⟩
  | .ok work =>
    let decision := c.operation work
    match decision.publish with
    | none => ⟨.returned decision.answer, published, decision.reports⟩
    | some work =>
      match s.swap published c.previous work with
      | (none, published) =>
        let retried := if c.attempt = 0 then [] else [Event.published c.attempt]
        ⟨.returned decision.answer, published, retried ++ decision.reports⟩
      | (some winner, published) =>
        let attempt := nextAttempt c.attempt
        let c := { c with previous := winner, work := work.copyFrom winner.account, attempt }
        ⟨.running c, published, [.lostRace attempt]⟩

end Call
end Throttle
