import Throttle.Configuration
import Throttle.Ledger

/-! A configuration and the ledger that it governs. -/

namespace Throttle

structure Account where
  configuration : Configuration
  ledger : Ledger
deriving DecidableEq

namespace Account

def new (c : Configuration) (now : UInt64) : Account := ⟨c, Ledger.new c.bandwidths now⟩

def refill (a : Account) (now : UInt64) : Except Fault Account :=
  match a.ledger.refill a.configuration.bandwidths now with
  | .error i => .error i.fault
  | .ok ledger => .ok { a with ledger }

def available (a : Account) : Balance := a.ledger.available

def consume (a : Account) (n : Balance) : Account := { a with ledger := a.ledger.consume n }

def add (a : Account) (n : Balance) : Account :=
  { a with ledger := a.ledger.add a.configuration.bandwidths n }

def delay (a : Account) (n : Balance) : Nanos := a.ledger.delay a.configuration.bandwidths n

/-- Puts another configuration in force and leaves the ledger as it is. Balances above a smaller
capacity are cut by the next refill. -/
def reconfigure (a : Account) (c : Configuration) : Account := { a with configuration := c }

def copyFrom (a source : Account) : Account :=
  ⟨source.configuration, a.ledger.copyFrom source.ledger⟩

end Account
end Throttle
