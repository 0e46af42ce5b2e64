import Throttle.Configuration.Compatibility
import Throttle.Nanos

/-! What a bucket and the streams on it report to a log. -/

namespace Throttle

inductive Event where
  /-- Another caller published first; counts the attempts that have failed. -/
  | lostRace (attempt : UInt32)
  /-- Published after this many failed attempts. -/
  | published (attempt : UInt32)
  | reserved (tokens : Balance) (delay : Nanos)
  | reconfigured (configuration : Configuration)
  | refused (cause : Incompatibility)
  /-- An item is held that the bucket cannot supply, of a weight where items have one. -/
  | held (weight : Option Amount)
deriving DecidableEq

inductive Level where
  | trace
  | debug
  | warn
deriving DecidableEq, Repr

namespace Event

def level : Event → Level
  | .lostRace _ | .published _ => .trace
  | .reserved .. | .reconfigured _ => .debug
  | .refused _ | .held _ => .warn

def message : Event → String
  | .lostRace _ => "lost the race to publish bucket state, retrying"
  | .published _ => "published bucket state after retries"
  | .reserved .. => "reserved tokens ahead of refill"
  | .reconfigured _ => "replaced bucket configuration"
  | .refused _ => "rejected bucket configuration"
  | .held _ => "token bucket never refills, holding item until tokens are added"

end Event
end Throttle
