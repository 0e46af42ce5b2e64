import Throttle.Account

/-! Publication. An account is published as an edition, and each edition has a number of its own,
so two editions of equal accounts are still told apart. -/

namespace Throttle

structure Edition where
  number : Nat
  account : Account
deriving DecidableEq

namespace Edition

def first (a : Account) : Edition := ⟨0, a⟩

def succ (e : Edition) (a : Account) : Edition := ⟨e.number + 1, a⟩

/-- Replaces the published edition if it is the expected one, and answers what was published
before in either case, beside what is published now. -/
def exchange (published expected : Edition) (a : Account) : Edition × Edition :=
  (published, if published.number = expected.number then published.succ a else published)

end Edition

inductive Strategy where
  /-- One indivisible exchange. -/
  | atomic
  /-- Comparison and swap under a lock. -/
  | locked
  /-- No other caller, so no comparison. -/
  | unshared
deriving DecidableEq, Repr

namespace Strategy

/-- Publishes `a` in place of the expected edition; answers the edition that is published
instead, if it is another one, beside what is published now. -/
def swap (s : Strategy) (published expected : Edition) (a : Account) : Option Edition × Edition :=
  match s with
  | .atomic =>
    let (before, after) := published.exchange expected a
    (if before.number = expected.number then none else some before, after)
  | .locked =>
    if published.number = expected.number then (none, published.succ a) else (some published, published)
  | .unshared => (none, published.succ a)

end Strategy
end Throttle
