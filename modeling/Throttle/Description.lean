import Throttle.Operation
import Throttle.Text.Elapsed
import Throttle.Text.Layout
import Throttle.Text.Quoted

/-! How the values of a bucket are described in full, and what reports say in their fields. -/

namespace Throttle

open Text

def Bandwidth.text (b : Bandwidth) : String :=
  s!"Bandwidth(capacity={b.capacity.val}, refill={b.refill} per " ++
    elapsed {} b.period.toNat ++ s!", initial={b.initialTokens}" ++
    (b.id.elim "" (", id=" ++ ·)) ++ ")"

def Configuration.layout (c : Configuration) : Layout :=
  .record "BucketConfiguration" [("bandwidths", .list (c.bandwidths.map (.atom ·.text)))]

def Slot.layout (s : Slot) : Layout :=
  .record "BandwidthState"
    [("tokens", .atom (toString s.tokens)), ("last_refill_nanos", .atom (toString s.lastRefill)),
      ("rounding_error", .atom (toString s.carry))]

def Ledger.layout (l : Ledger) : Layout :=
  .record "BucketState" [("bandwidths", .list (l.slots.map Slot.layout))]

def Account.layout (a : Account) : Layout :=
  .record "TokenBucket" [("state", a.ledger.layout), ("configuration", a.configuration.layout)]

def Probe.layout (p : Probe) : Layout :=
  .record "ConsumptionProbe"
    [("consumed", .atom (toString p.consumed)), ("remaining_tokens", .atom (toString p.remaining)),
      ("nanos_to_wait_for_refill", .atom p.wait.text)]

def ConfigurationError.layout : ConfigurationError → Layout
  | .noBandwidths => .atom "NoBandwidths"
  | .zeroRefillPeriod position => .record "ZeroRefillPeriod" [("position", .atom (toString position))]
  | .initialTokensExceedCapacity position initial capacity =>
    .record "InitialTokensExceedCapacity"
      [("position", .atom (toString position)), ("initial", .atom (toString initial)),
        ("capacity", .atom (toString capacity))]

def Incompatibility.message : Incompatibility → String
  | .bandwidthCount previous requested =>
    s!"the bucket tracks {previous} bandwidths but the new configuration has {requested}"
  | .bandwidthIdentity position previous requested =>
    s!"bandwidth at position {position} changed identity from " ++ quote previous ++ " to " ++
      quote requested

def Incompatibility.layout : Incompatibility → Layout
  | .bandwidthCount previous requested =>
    .record "BandwidthCount"
      [("previous", .atom (toString previous)), ("requested", .atom (toString requested))]
  | .bandwidthIdentity position previous requested =>
    .record "BandwidthIdentity"
      [("position", .atom (toString position)), ("previous", .atom (quote previous)),
        ("requested", .atom (quote requested))]

def Rejection.message : Rejection → String
  | .invalid e => e.message
  | .incompatible e => e.message

def Rejection.layout : Rejection → Layout
  | .invalid e => e.layout
  | .incompatible e => e.layout

def Event.fields : Event → List (String × String)
  | .lostRace attempt | .published attempt => [("attempt", toString attempt)]
  | .reserved tokens delay => [("tokens", toString tokens), ("delay", delay.text)]
  | .reconfigured c => [("configuration", c.layout.inline)]
  | .refused e => [("err", e.message)]
  | .held weight => weight.toList.map fun w => ("weight", toString w.val)

end Throttle
