import Throttle.Call
import Throttle.Clock

/-! A bucket that callers share, and what one call does to it: alone, or while others work on the
same bucket. -/

namespace Throttle

namespace Call

theorem swap_eq_some {s : Strategy} {published expected winner after : Edition} {a : Account}
    (h : s.swap published expected a = (some winner, after)) :
    published.number ≠ expected.number ∧ winner = published ∧ after = published := by
  have hne : published.number ≠ expected.number := by
    intro he
    cases s <;> simp [Strategy.swap, Edition.exchange, he] at h
  cases s with
  | unshared => simp [Strategy.swap] at h
  | atomic | locked =>
    simp only [Strategy.swap, Edition.exchange, if_neg hne, Prod.mk.injEq, Option.some.injEq] at h
    exact ⟨hne, h.1.symm, h.2.symm⟩

/-- A call goes on only if another one has published, and then it starts from what is published. -/
theorem tryOnce_running {α : Type} {c c' : Call α} {s : Strategy} {published : Edition}
    (h : (c.tryOnce s published).progress = .running c') :
    published.number ≠ c.previous.number ∧ c'.previous = published ∧
      (c.tryOnce s published).published = published := by
  unfold tryOnce at h ⊢
  split at h
  · cases h
  · dsimp only at h ⊢
    split at h
    · cases h
    · split at h
      · cases h
      · next hs =>
        obtain ⟨hne, rfl, rfl⟩ := swap_eq_some hs
        cases h
        exact ⟨hne, rfl, by simp_all⟩

/-- Tries until the call ends, with nobody else at work: a lost attempt starts the next one from
what is published, and that one cannot lose. -/
def finish {α : Type} (c : Call α) (s : Strategy) (published : Edition) :
    Except Fault α × Edition × List Event :=
  let turn := c.tryOnce s published
  match _h : turn.progress with
  | .returned answer => (.ok answer, turn.published, turn.events)
  | .faulted fault => (.error fault, turn.published, turn.events)
  | .running c' =>
    let (answer, published, events) := c'.finish s turn.published
    (answer, published, turn.events ++ events)
termination_by if published.number = c.previous.number then 0 else 1
decreasing_by
  obtain ⟨hne, hc, hp⟩ := tryOnce_running _h
  have hp : turn.published = published := hp
  rw [hp, hc, if_pos rfl, if_neg hne]
  exact Nat.one_pos

end Call

structure Bucket where
  strategy : Strategy
  clock : Clock
  published : Edition
deriving DecidableEq

structure Outcome (α : Type) where
  answer : α
  bucket : Bucket
  events : List Event

abbrev Activity (α : Type) := Bucket → Outcome α

namespace Bucket

def new (s : Strategy) (clock : Clock) (c : Configuration) : Bucket :=
  ⟨s, clock, .first (.new c clock.now)⟩

def account (b : Bucket) : Account := b.published.account

/-- The call at the moment it has read the clock and loaded the published edition. -/
def load {α : Type} (b : Bucket) (operation : Operation α) : Call α :=
  .load operation b.clock.now b.published

/-- One call with nobody else at work. -/
def perform {α : Type} (operation : Operation α) : Activity (Except Fault α) := fun b =>
  let (answer, published, events) := (b.load operation).finish b.strategy b.published
  ⟨answer, { b with published }, events⟩

end Bucket

/-- Goes on with a call while others work on the bucket: each round of theirs comes right before
the next attempt of the call, and rounds that the call does not come to are left out. -/
def Call.finishAmong {α β : Type} (c : Call α) : List (Activity β) → Activity (Except Fault α × List β)
  | [], b =>
    let (answer, published, events) := c.finish b.strategy b.published
    ⟨(answer, []), { b with published }, events⟩
  | round :: rounds, b =>
    let others := round b
    let turn := c.tryOnce others.bucket.strategy others.bucket.published
    let b := { others.bucket with published := turn.published }
    match turn.progress with
    | .returned answer => ⟨(.ok answer, [others.answer]), b, others.events ++ turn.events⟩
    | .faulted fault => ⟨(.error fault, [others.answer]), b, others.events ++ turn.events⟩
    | .running c =>
      let rest := c.finishAmong rounds b
      ⟨(rest.answer.1, others.answer :: rest.answer.2), rest.bucket,
        others.events ++ turn.events ++ rest.events⟩

namespace Bucket

def performAmong {α β : Type} (operation : Operation α) (rounds : List (Activity β)) :
    Activity (Except Fault α × List β) := fun b => (b.load operation).finishAmong rounds b

end Bucket
end Throttle
