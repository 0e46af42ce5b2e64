import Throttle.Operation

/-! The operations of a bucket as data, with their answers. -/

namespace Throttle

inductive Request where
  | consume (n : Amount)
  | consumeUpTo (limit : Amount)
  | probe (n : Amount)
  | reserve (n : Amount) (maxWait : Nanos)
  | add (n : Amount)
  | replace (c : Configuration)
  | available
deriving DecidableEq

inductive Answer where
  | consumed (all : Bool)
  | taken (count : Nat)
  | probed (found : Probe)
  | wait (delay : Nanos)
  | added
  | replaced (clash : Option Incompatibility)
  | available (balance : Balance)
deriving DecidableEq, Repr

def Request.operation : Request → Operation Answer
  | .consume n => fun a => (Operation.consume n a).map .consumed
  | .consumeUpTo limit => fun a => (Operation.consumeUpTo limit a).map .taken
  | .probe n => fun a => (Operation.probe n a).map .probed
  | .reserve n maxWait => fun a => (Operation.reserve n maxWait a).map .wait
  | .add n => fun a => (Operation.add n a).map fun _ => .added
  | .replace c => fun a => (Operation.replace c a).map .replaced
  | .available => fun a => (Operation.available a).map .available

end Throttle
