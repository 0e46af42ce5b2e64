import Mathlib.Algebra.BigOperators.Group.List.Basic
import Throttle.Proofs.Deliveries
import Throttle.Proofs.Solvency
import Throttle.Stream.Playback

/-! Streams that pay for what they give. The clock of the bucket and the timer of the stream go along
one time line, so when a delay is over, all that was owed when it began has come back. A stream asks
its bucket only then, and so it never owes more than the item that it has reserved last. -/

namespace Throttle.Stream

variable {σ α τ : Type}

def Polling.item? (out : Polling τ α) : Option α :=
  match out.answer with
  | .ok (.item item) => some item
  | _ => none

def Prompt.added : Prompt → Int
  | .add n => n.balance.toInt
  | .poll _ | .clock _ => 0

/-- A kind of stream as its user has it, with the bucket that it is on. -/
structure Outlet (τ α : Type) where
  poll : (now : Nat) → τ → Polling τ α
  bucket : τ → Bucket
  withBucket : Bucket → τ → τ

namespace Outlet

def heed (o : Outlet τ α) (p : τ) : Prompt → τ × Option α
  | .poll now => ((o.poll now p).stream, (o.poll now p).item?)
  | .add n => (o.withBucket ((o.bucket p).perform (Operation.add n)).bucket p, none)
  | .clock c => (o.withBucket { o.bucket p with clock := c } p, none)

def play (o : Outlet τ α) (p : τ) : List Prompt → τ × List α
  | [] => (p, [])
  | prompt :: prompts =>
    let (p', item) := o.heed p prompt
    let (p'', items) := o.play p' prompts
    (p'', item.toList ++ items)

end Outlet

/-- The prompts come along one time line, on which the clock of the bucket goes from one reading to
another and never back. It counts the nanoseconds since `origin`, and a poll takes place at the
instant that it shows. -/
inductive OnTimeline (origin : Nat) : UInt64 → List Prompt → UInt64 → Prop
  | nil (t : UInt64) : OnTimeline origin t [] t
  | poll {t t' : UInt64} {prompts : List Prompt} (rest : OnTimeline origin t prompts t') :
      OnTimeline origin t (.poll (origin + t.toNat) :: prompts) t'
  | add {t t' : UInt64} {prompts : List Prompt} (n : Amount) (rest : OnTimeline origin t prompts t') :
      OnTimeline origin t (.add n :: prompts) t'
  | clock {t t' : UInt64} {prompts : List Prompt} (c : Clock) (later : t ≤ c.now)
      (rest : OnTimeline origin c.now prompts t') : OnTimeline origin t (.clock c :: prompts) t'

theorem OnTimeline.le {origin : Nat} {t t' : UInt64} {prompts : List Prompt}
    (h : OnTimeline origin t prompts t') : t.toNat ≤ t'.toNat := by
  induction h with
  | nil => exact le_rfl
  | poll _ ih => exact ih
  | add _ _ ih => exact ih
  | clock c later _ ih => exact (UInt64.le_iff_toNat_le.mp later).trans ih

def cost (weight : α → Amount) (items : List α) : Int :=
  (items.map fun item => (weight item).balance.toInt).sum

@[simp] theorem cost_singleton (weight : α → Amount) (item : α) :
    cost weight [item] = (weight item).balance.toInt := List.sum_singleton

/-- The stream is on a bucket that was made for `c` at reading `t₀`. Beside what time has brought,
`credit` tokens have been given to it less the cost of what has gone out, and an item that is kept
back paid is paid. When the delay is over, nothing is owed any more. -/
structure Solvent (weight : α → Amount) (origin : Nat) (c : Configuration) (t₀ : UInt64)
    (W credit : Int) (w : Weighted σ α) : Prop where
  backed : w.bucket.Backed c t₀ W (credit - cost weight w.hold.paidItems)
  covered : ∀ T, w.bucket.clock.now.toNat ≤ T → (∀ deadline ∈ w.delay, deadline ≤ origin + T) →
    w.bucket.account.ClearedBy T

variable {source : Source σ α} {weight : α → Amount} {timer : Timer} {origin now : Nat}
  {c : Configuration} {t₀ t : UInt64} {W credit : Int} {w : Weighted σ α} {item : α}

theorem Supplies.solvent {n : Amount} {b b' : Bucket} {net : Int} {supplied : Supply}
    {events : List Event} (h : Supplies n b ⟨.ok supplied, b', events⟩) (ever : supplied ≠ .never)
    (backed : b.Backed c t₀ W net) (cleared : b.account.ClearedBy b.clock.now.toNat)
    (hn : n.balance.toInt ≤ W) :
    b'.clock = b.clock ∧ b'.Backed c t₀ W (net - n.balance.toInt) ∧
      ∀ T, b.clock.now.toNat ≤ T →
        (∀ deadline ∈ supplied.deadline (origin + b.clock.now.toNat), deadline ≤ origin + T) →
        b'.account.ClearedBy T := by
  cases h with
  | refused => exact absurd rfl ever
  | ready a commits =>
    obtain ⟨backed', cleared'⟩ := backed.reserve cleared hn (by decide) commits
    exact ⟨rfl, backed', fun T hT _ => cleared' T hT⟩
  | later d a _ ends commits =>
    obtain ⟨backed', cleared'⟩ := backed.reserve cleared hn ends commits
    refine ⟨rfl, backed', fun T _ hdeadline => cleared' T ?_⟩
    have := hdeadline _ rfl
    omega

theorem Fetches.cost_paidItems {fresh : Bool} {state : σ} {deeds : List (Deed α)}
    (h : Fetches source timer now w item fresh state deeds) : cost weight w.hold.paidItems = 0 := by
  cases h with
  | held _ hold => rw [hold]; rfl
  | fresh _ _ hold => rw [hold]; rfl

theorem Fetches.elapsed {fresh : Bool} {state : σ} {deeds : List (Deed α)}
    (h : Fetches source timer now w item fresh state deeds) : timer.running now w.delay = false := by
  cases h <;> assumption

namespace Solvent

theorem cleared (h : Solvent weight origin c t₀ W credit w)
    (elapsed : timer.running (origin + w.bucket.clock.now.toNat) w.delay = false) {T : Nat}
    (hT : w.bucket.clock.now.toNat ≤ T) : w.bucket.account.ClearedBy T := by
  refine h.covered T hT fun deadline hd => ?_
  have := timer.not_early _ _ (Timer.due_of_elapsed elapsed hd)
  omega

theorem add (h : Solvent weight origin c t₀ W credit w) (hW : 0 ≤ W) (n : Amount) :
    Solvent weight origin c t₀ W (credit + n.balance.toInt)
      { w with bucket := (w.bucket.perform (Operation.add n)).bucket } := by
  obtain ⟨backed, clock, cleared⟩ := h.backed.add hW n
  refine ⟨?_, fun T hT hdeadline => ?_⟩
  · rw [add_sub_right_comm]
    exact backed
  · have hT : w.bucket.clock.now.toNat ≤ T := by
      rw [← clock]
      exact hT
    exact cleared T hT (h.covered T hT hdeadline)

theorem move (h : Solvent weight origin c t₀ W credit w) (clock : Clock)
    (later : w.bucket.clock.now ≤ clock.now) :
    Solvent weight origin c t₀ W credit { w with bucket := { w.bucket with clock } } := by
  have later := UInt64.le_iff_toNat_le.mp later
  exact ⟨h.backed.move later, fun T hT => h.covered T (later.trans hT)⟩

end Solvent

/-- What a round keeps: its item, if it gives one, is paid from the credit. -/
theorem Rounds.solvent {r : Round (Weighted σ α) α}
    (h : Rounds source weight timer (origin + w.bucket.clock.now.toNat) w r)
    (hW : ∀ item, (weight item).balance.toInt ≤ W) (hs : Solvent weight origin c t₀ W credit w) :
    Solvent weight origin c t₀ W (credit - cost weight r.settle.polling.item?.toList)
      r.settle.stream ∧ r.settle.stream.bucket.clock = w.bucket.clock := by
  obtain ⟨backed, -⟩ := id hs
  cases h with
  | waits =>
    refine ⟨?_, rfl⟩
    change Solvent weight origin c t₀ W (credit - 0) w
    rwa [sub_zero]
  | released item elapsed hold =>
    rw [hold] at backed
    refine ⟨⟨?_, fun T hT _ => hs.cleared elapsed hT⟩, rfl⟩
    change w.bucket.Backed c t₀ W (credit - cost weight [item] - 0)
    rwa [sub_zero]
  | unfilled answer state delay elapsed hold polled none =>
    rw [hold] at backed
    refine ⟨⟨?_, fun T hT _ => hs.cleared elapsed hT⟩, rfl⟩
    cases answer with
    | item item => exact absurd rfl (none item)
    | ended | pending =>
      change w.bucket.Backed c t₀ W (credit - 0 - 0)
      rwa [sub_zero]
  | refused item fresh state deeds shown fetches =>
    rw [fetches.cost_paidItems] at backed
    refine ⟨⟨?_, fun T hT _ => hs.cleared fetches.elapsed hT⟩, rfl⟩
    change w.bucket.Backed c t₀ W (credit - 0 - 0)
    rwa [sub_zero]
  | given item fresh state deeds supplied b events fetches supply_eq ever =>
    rw [fetches.cost_paidItems, sub_zero] at backed
    obtain ⟨clock, backed', cleared⟩ := (supplies_of_eq supply_eq).solvent ever backed
      (hs.cleared fetches.elapsed le_rfl) (hW item)
    refine ⟨⟨?_, fun T hT => cleared T (clock ▸ hT)⟩, clock⟩
    change b.Backed c t₀ W (credit - cost weight [item] - 0)
    rwa [sub_zero, cost_singleton]
  | kept item fresh state deeds nanos b events fetches supply_eq =>
    rw [fetches.cost_paidItems, sub_zero] at backed
    obtain ⟨clock, backed', cleared⟩ := (supplies_of_eq supply_eq).solvent (by simp) backed
      (hs.cleared fetches.elapsed le_rfl) (hW item)
    refine ⟨⟨?_, fun T hT => cleared T (clock ▸ hT)⟩, clock⟩
    change b.Backed c t₀ W (credit - 0 - cost weight [item])
    rwa [sub_zero, cost_singleton]

namespace Limiter

end Limiter

def patient : List Prompt :=
  [.poll 3000000, .poll 3000000, .add .one, .clock (.manual 600000000)]

end Throttle.Stream
