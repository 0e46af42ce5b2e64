import Throttle.Bucket
import Throttle.Proofs.Timeline

/-! A bucket with one caller at a time. Its calls never lose, so each answers and publishes what its
operation makes of the account refilled to the time of the call. -/

namespace Throttle

namespace Call

theorem finish_of_returned {α : Type} {c : Call α} {s : Strategy} {e e' : Edition} {answer : α}
    {events : List Event} (h : c.tryOnce s e = ⟨.returned answer, e', events⟩) :
    c.finish s e = (.ok answer, e', events) := by
  rw [finish]
  split
  · next ans hans => rw [h] at hans ⊢; cases hans; rfl
  · next fault hfault => rw [h] at hfault; cases hfault
  · next c' hrunning => rw [h] at hrunning; cases hrunning

end Call

namespace Bucket

def settle (b : Bucket) : Option Account → Bucket
  | none => b
  | some a => { b with published := b.published.succ a }

theorem perform_eq {α : Type} {b : Bucket} {work : Account}
    (refilled : b.account.refill b.clock.now = .ok work) (operation : Operation α) :
    b.perform operation = ⟨.ok (operation work).answer, b.settle (operation work).publish,
      (operation work).reports⟩ := by
  have hload : b.published.account.refill b.clock.now = .ok work := refilled
  have hturn : (b.load operation).tryOnce b.strategy b.published =
      ⟨.returned (operation work).answer, (b.settle (operation work).publish).published,
        (operation work).reports⟩ := by
    simp only [load, Call.load, Call.tryOnce, hload, Strategy.swap_self]
    cases (operation work).publish with
    | none => rfl
    | some a => rfl
  rw [perform, Call.finish_of_returned hturn]
  cases (operation work).publish with
  | none => rfl
  | some a => rfl

theorem perform_ok {α : Type} (b : Bucket) (operation : Operation α) :
    ∃ work, b.account.refill b.clock.now = .ok work ∧ b.account.Refills b.clock.now work ∧
      b.perform operation = ⟨.ok (operation work).answer, b.settle (operation work).publish,
        (operation work).reports⟩ := by
  obtain ⟨work, refilled, hr⟩ := b.account.refill_ok b.clock.now
  exact ⟨work, refilled, hr, perform_eq refilled operation⟩

/-- A bucket that calls reach from a new one, whatever its clock shows in between. -/
inductive Reachable : Bucket → Prop
  | new (s : Strategy) (clock : Clock) (c : Configuration) : Reachable (new s clock c)
  | perform {b : Bucket} (before : Reachable b) (r : Request) :
      Reachable (b.perform r.operation).bucket
  | clock {b : Bucket} (before : Reachable b) (clock : Clock) : Reachable { b with clock }

theorem Reachable.account {b : Bucket} (h : b.Reachable) : b.account.Reachable := by
  induction h with
  | new s clock c => exact .new c clock.now
  | @perform b before r ih =>
    obtain ⟨work, refilled, -, hperform⟩ := b.perform_ok r.operation
    rw [hperform]
    cases hpublish : (r.operation work).publish with
    | none => exact ih
    | some a => exact ih.commit (.intro work refilled hpublish rfl) trivial
  | clock before clock ih => exact ih

end Bucket

end Throttle
