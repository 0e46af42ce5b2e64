import Throttle.Slot

/-! The balances of all limits of a bucket, one slot for each. Operations pair slots with
bandwidths by position, as far as both lists go. -/

namespace Throttle

structure Ledger where
  slots : List Slot
deriving DecidableEq, Repr

namespace Ledger

def new (bs : List Bandwidth) (now : UInt64) : Ledger := ⟨bs.map (Slot.new · now)⟩

/-- Refills slot by slot; at a fault the slots before it are refilled and those after it are not. -/
def refillSlots (now : UInt64) : List Slot → List Bandwidth → Except (Interrupted (List Slot)) (List Slot)
  | s :: ss, b :: bs =>
    match s.refill b now with
    | .error i => .error (i.map (· :: ss))
    | .ok s =>
      match refillSlots now ss bs with
      | .error i => .error (i.map (s :: ·))
      | .ok ss => .ok (s :: ss)
  | ss, _ => .ok ss

def refill (l : Ledger) (bs : List Bandwidth) (now : UInt64) : Except (Interrupted Ledger) Ledger :=
  match refillSlots now l.slots bs with
  | .error i => .error (i.map Ledger.mk)
  | .ok slots => .ok ⟨slots⟩

def addSlots (n : Balance) : List Slot → List Bandwidth → List Slot
  | s :: ss, b :: bs => s.add b n :: addSlots n ss bs
  | ss, _ => ss

def add (l : Ledger) (bs : List Bandwidth) (n : Balance) : Ledger := ⟨addSlots n l.slots bs⟩

def consume (l : Ledger) (n : Balance) : Ledger := ⟨l.slots.map (·.consume n)⟩

/-- The smallest balance: the scarcest limit governs. -/
def available (l : Ledger) : Balance := (l.slots.map (·.tokens)).min?.getD 0

def delay (l : Ledger) (bs : List Bandwidth) (n : Balance) : Nanos :=
  (List.zipWith (fun s b => Slot.delay s b n) l.slots bs).max?.getD Nanos.zero

/-- The slots of `source`, written over those of `l` where the numbers agree. -/
def copyFrom (l source : Ledger) : Ledger :=
  if l.slots.length = source.slots.length then ⟨List.zipWith (fun _ s => s) l.slots source.slots⟩
  else source

end Ledger
end Throttle
