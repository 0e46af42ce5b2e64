import Throttle.Call
import Throttle.Request

/-! Any number of callers on one bucket. Their clock readings, loads and attempts happen one at a
time, in any order. -/

namespace Throttle

inductive Standing where
  | idle
  | called (request : Request) (reading : UInt64)
  | running (request : Request) (call : Call Answer)

structure World where
  strategy : Strategy
  published : Edition
  standing : Nat → Standing

inductive Move where
  /-- Begins a call and reads the clock for it. -/
  | call (caller : Nat) (request : Request) (reading : UInt64)
  | load (caller : Nat)
  | attempt (caller : Nat)
deriving DecidableEq

inductive Happening where
  | called (caller : Nat) (request : Request) (reading : UInt64)
  /-- The caller's swap took place. -/
  | published (caller : Nat) (request : Request) (reading : UInt64) (edition : Edition)
  | reported (caller : Nat) (event : Event)
  | returned (caller : Nat) (request : Request) (reading : UInt64) (answer : Answer)
  | faulted (caller : Nat) (fault : Fault)
deriving DecidableEq

namespace World

def new (s : Strategy) (c : Configuration) (now : UInt64) : World :=
  ⟨s, .first (.new c now), fun _ => .idle⟩

def put (w : World) (caller : Nat) (standing : Standing) : World :=
  { w with standing := fun k => if k = caller then standing else w.standing k }

/-- One move; a move that the caller is not ready for changes nothing. -/
def step (w : World) : Move → World × List Happening
  | .call caller request reading =>
    match w.standing caller with
    | .idle => (w.put caller (.called request reading), [.called caller request reading])
    | _ => (w, [])
  | .load caller =>
    match w.standing caller with
    | .called request reading =>
      (w.put caller (.running request (.load request.operation reading w.published)), [])
    | _ => (w, [])
  | .attempt caller =>
    match w.standing caller with
    | .running request call =>
      let turn := call.tryOnce w.strategy w.published
      let swapped :=
        if turn.published.number = w.published.number then []
        else [.published caller request call.reading turn.published]
      let w := { w with published := turn.published }
      let seen := swapped ++ turn.events.map (.reported caller)
      match turn.progress with
      | .running call => (w.put caller (.running request call), seen)
      | .returned answer =>
        (w.put caller .idle, seen ++ [.returned caller request call.reading answer])
      | .faulted fault => (w.put caller .idle, seen ++ [.faulted caller fault])
    | _ => (w, [])

def run (w : World) : List Move → World × List Happening
  | [] => (w, [])
  | m :: ms =>
    let (w, first) := w.step m
    let (w, rest) := w.run ms
    (w, first ++ rest)

end World

/-- The moves of one call that nobody comes between. -/
def Move.whole (caller : Nat) (request : Request) (reading : UInt64) : List Move :=
  [.call caller request reading, .load caller, .attempt caller]

def Happening.answers (hs : List Happening) : List Answer :=
  hs.filterMap fun
    | .returned _ _ _ answer => some answer
    | _ => none

end Throttle
