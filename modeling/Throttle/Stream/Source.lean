/-! Streams of items that are asked for one at a time. -/

namespace Throttle.Stream

inductive Polled (α : Type) where
  | item (a : α)
  | ended
  | pending
deriving DecidableEq, Repr

/-- A stream of items `α`, as the rule by which its states `σ` answer at an instant. -/
structure Source (σ α : Type) where
  poll : (now : Nat) → σ → Polled α × σ

/-- Items still to come, each a while after it is first asked for. -/
structure Arrivals (α : Type) where
  upcoming : List (Nat × α)
  /-- When the next item comes, once it has been asked for. -/
  due : Option Nat := none

def Arrivals.poll {α : Type} (now : Nat) (s : Arrivals α) : Polled α × Arrivals α :=
  match s.upcoming with
  | [] => (.ended, s)
  | (gap, item) :: rest =>
    let due := s.due.getD (now + gap)
    if due ≤ now then (.item item, ⟨rest, none⟩) else (.pending, { s with due := some due })

def Arrivals.source {α : Type} : Source (Arrivals α) α := ⟨Arrivals.poll⟩

end Throttle.Stream
