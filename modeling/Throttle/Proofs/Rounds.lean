import Throttle.Proofs.ZeroWait
import Throttle.Stream.Paced
import Throttle.Stream.Weighted

/-! The loop of a poll, one round after another, with what it does to its source and its bucket on
the way. A round that keeps its item back starts a wait and goes round again, and since no sleep is
over early, the next round answers that it waits. So the loop comes to an end, and what it comes to
is the poll. -/

namespace Throttle.Stream

/-- What comes of asking a bucket for `n` tokens for however long they take: a refusal that leaves
the bucket as it was, or one call that publishes. -/
inductive Supplies (n : Amount) (b : Bucket) : Outcome (Except Fault Supply) → Prop
  | refused : Supplies n b ⟨.ok .never, b, []⟩
  | ready (a : Account)
      (commits : b.account.Commits (.reserve n .infinite) b.clock.now (.wait .zero) a) :
      Supplies n b ⟨.ok .ready, b.settle (some a), []⟩
  | later (d : Nanos) (a : Account) (pos : 0 < d.val.toNat) (ends : ¬d.isInfinite)
      (commits : b.account.Commits (.reserve n .infinite) b.clock.now (.wait d) a) :
      Supplies n b ⟨.ok (.later d.val.toNat), b.settle (some a), [.reserved n.balance d]⟩

theorem Supply.ofDelay_eq {d : Nanos} (pos : 0 < d.val.toNat) (ends : ¬d.isInfinite) :
    ofDelay d = .later d.val.toNat := by
  have hd : d.finite? = some d.val.toNat := if_neg ends
  rw [ofDelay, hd]
  split
  · next h => cases h
  · next h => exact absurd (Option.some.inj h) pos.ne'
  · next h => rw [Option.some.inj h]

theorem supplies (n : Amount) (b : Bucket) : Supplies n b (supply n b) := by
  obtain ⟨work, refilled, -, -⟩ := b.perform_ok (Operation.reserve n .infinite)
  rw [supply, Bucket.reserve_eq refilled]
  by_cases refused : (work.delay n.balance).isInfinite ∨ Nanos.infinite < work.delay n.balance
  · rw [if_pos refused]
    exact .refused
  rw [if_neg refused]
  obtain ⟨ends, -⟩ := not_or.mp refused
  by_cases hzero : (work.delay n.balance).isZero
  · have hd : work.delay n.balance = .zero := beq_iff_eq.mp hzero
    have granted : (Request.reserve n .infinite).operation work =
        .commit (.wait .zero) (work.consume n.balance) := by
      simp only [Request.operation, Operation.reserve, if_pos hzero]
      rfl
    rw [if_pos hzero, hd]
    exact .ready _ (.intro work refilled (by rw [granted]; rfl) (by rw [granted]; rfl))
  · have granted : (Request.reserve n .infinite).operation work =
        .commit (.wait (work.delay n.balance)) (work.consume n.balance)
          [.reserved n.balance (work.delay n.balance)] := by
      simp only [Request.operation, Operation.reserve, if_neg hzero, if_neg refused]
      rfl
    have pos : 0 < (work.delay n.balance).val.toNat := by
      rw [Nanos.isZero_iff] at hzero
      omega
    have h := Supplies.later (n := n) (b := b) (work.delay n.balance) (work.consume n.balance) pos ends
      (.intro work refilled (by rw [granted]; rfl) (by rw [granted]; rfl))
    rw [← Supply.ofDelay_eq pos ends] at h
    rw [if_neg hzero]
    exact h

theorem supplies_of_eq {n : Amount} {b : Bucket} {out : Outcome (Except Fault Supply)}
    (h : supply n b = out) : Supplies n b out := h ▸ supplies n b

inductive Deed (α : Type) where
  /-- Asks its source, with what it keeps back at that moment and the deadline of its delay. -/
  | asked (now : Nat) (hold : Hold α) (delay : Option Nat) (answer : Polled α)
  /-- Asks its bucket for tokens, for however long they take. -/
  | reserved (n : Amount) (supply : Except Fault Supply)
  | reported (e : Event)
  | answered (answer : Except Fault (Polled α))
  | added (n : Amount)

def Deed.report? {α : Type} : Deed α → Option Event
  | .reported e => some e
  | _ => none

def reports {α : Type} (deeds : List (Deed α)) : List Event := deeds.filterMap Deed.report?

section

variable {α : Type} (deeds deeds' : List (Deed α))

@[simp] theorem reports_nil : reports ([] : List (Deed α)) = [] := rfl

@[simp] theorem reports_append : reports (deeds ++ deeds') = reports deeds ++ reports deeds' :=
  List.filterMap_append

@[simp] theorem reports_reserved (n : Amount) (supply : Except Fault Supply) :
    reports (.reserved n supply :: deeds) = reports deeds := rfl

@[simp] theorem reports_reported (e : Event) :
    reports (.reported e :: deeds) = e :: reports deeds := rfl

@[simp] theorem reports_map_reported (events : List Event) :
    reports (events.map (Deed.reported (α := α))) = events := by
  induction events with
  | nil => rfl
  | cons e events ih => exact congrArg (e :: ·) ih

end

structure Trail (β τ α : Type) where
  answer : β
  stream : τ
  deeds : List (Deed α)

/-- One time round the loop of a poll. Without an answer it goes round again. -/
abbrev Round (τ α : Type) := Trail (Option (Except Fault (Polled α))) τ α

/-- The round as a poll, where another one would only wait. -/
def Round.settle {τ α : Type} (r : Round τ α) : Trail (Except Fault (Polled α)) τ α :=
  ⟨r.answer.getD (.ok .pending), r.stream, r.deeds⟩

def Trail.polling {τ α : Type} (t : Trail (Except Fault (Polled α)) τ α) : Polling τ α :=
  ⟨t.answer, t.stream, reports t.deeds⟩

/-- The loop of a poll at one instant. A stream that waits says so and does nothing, and one that
goes round again has started a wait. -/
structure Loop (τ α : Type) where
  waits : τ → Bool
  round : τ → Round τ α
  waiting : ∀ p, waits p = true → round p = ⟨some (.ok .pending), p, []⟩
  again : ∀ p, (round p).answer = none → waits (round p).stream = true

namespace Loop

variable {τ α : Type} {l : Loop τ α} {p : τ}

theorem waits_eq_false (h : (l.round p).answer = none) : l.waits p = false := by
  cases hwaits : l.waits p with
  | false => rfl
  | true => rw [l.waiting p hwaits] at h; cases h

def poll (l : Loop τ α) (p : τ) : Trail (Except Fault (Polled α)) τ α :=
  let r := l.round p
  match _h : r.answer with
  | some answer => ⟨answer, r.stream, r.deeds⟩
  | none =>
    let rest := l.poll r.stream
    ⟨rest.answer, rest.stream, r.deeds ++ rest.deeds⟩
termination_by if l.waits p then 0 else 1
decreasing_by
  -- Only a stream that does not wait goes round again, and then it does.
  rw [waits_eq_false _h, l.again p _h]
  decide

theorem poll_of_waits (h : l.waits p = true) : l.poll p = ⟨.ok .pending, p, []⟩ := by
  rw [poll]
  split
  · next answer hanswer =>
    rw [l.waiting p h] at hanswer ⊢
    cases hanswer
    rfl
  · next hagain =>
    rw [waits_eq_false hagain] at h
    cases h

/-- The loop never goes round with anything left to do but wait. -/
theorem poll_eq (l : Loop τ α) (p : τ) : l.poll p = (l.round p).settle := by
  rw [poll]
  split
  · next answer hanswer => rw [Round.settle, hanswer]; rfl
  · next hagain =>
    rw [poll_of_waits (l.again p hagain), Round.settle, hagain]
    exact congrArg (Trail.mk _ _) (List.append_nil _)

end Loop

namespace Timer

def running (timer : Timer) (now : Nat) (delay : Option Nat) : Bool :=
  delay.any fun deadline => !timer.due deadline now

variable {timer : Timer} {now deadline : Nat}

theorem running_of_lt (h : now < deadline) : timer.running now (some deadline) = true := by
  cases hdue : timer.due deadline now with
  | false => rw [running, Option.any_some, hdue]; rfl
  | true => exact absurd (timer.not_early deadline now hdue) (by omega)

theorem due_of_elapsed {delay : Option Nat} (elapsed : timer.running now delay = false)
    (hd : deadline ∈ delay) : timer.due deadline now = true := by
  cases hd
  rw [running, Option.any_some, Bool.not_eq_false'] at elapsed
  exact elapsed

end Timer

def Supply.deadline (now : Nat) : Supply → Option Nat
  | .ready => none
  | .later nanos => some (now + nanos)
  | .never => some (now + retryInterval)

section

variable {σ α : Type} (source : Source σ α) (weight : α → Amount) (timer : Timer) (now : Nat)

/-- How a round comes by an item that it has to pay for: it is kept back from before, or the source
has it. -/
inductive Fetches (w : Weighted σ α) (item : α) : (fresh : Bool) → σ → List (Deed α) → Prop
  | held (elapsed : timer.running now w.delay = false) (hold : w.hold = .unpaid item) :
      Fetches w item false w.source []
  | fresh (state : σ) (elapsed : timer.running now w.delay = false) (hold : w.hold = .nothing)
      (polled : source.poll now w.source = (.item item, state)) :
      Fetches w item true state [.asked now .nothing w.delay (.item item)]

/-- What a round can come to, of a stream that gives an item as soon as it is reserved or only when
its tokens are there. -/
inductive Rounds (w : Weighted σ α) : Round (Weighted σ α) α → Prop
  | waits (running : timer.running now w.delay = true) : Rounds w ⟨some (.ok .pending), w, []⟩
  | released (item : α) (elapsed : timer.running now w.delay = false) (hold : w.hold = .paid item) :
      Rounds w ⟨some (.ok (.item item)), { w with delay := none, hold := .nothing }, []⟩
  | unfilled (answer : Polled α) (state : σ) (delay : Option Nat)
      (elapsed : timer.running now w.delay = false) (hold : w.hold = .nothing)
      (polled : source.poll now w.source = (answer, state)) (none : ∀ item, answer ≠ .item item)
      (delay_eq : delay = w.delay ∨ delay = Option.none) :
      Rounds w ⟨some (.ok answer), { w with source := state, delay, hold := .nothing },
        [.asked now .nothing w.delay answer]⟩
  | refused (item : α) (fresh : Bool) (state : σ) (deeds : List (Deed α)) (shown : Option Amount)
      (fetches : Fetches source timer now w item fresh state deeds) :
      Rounds w ⟨none, ⟨state, w.bucket, Supply.never.deadline now, .unpaid item⟩,
        deeds ++ .reserved (weight item) (.ok .never) ::
          if fresh then [.reported (.held shown)] else []⟩
  | given (item : α) (fresh : Bool) (state : σ) (deeds : List (Deed α)) (supplied : Supply)
      (b : Bucket) (events : List Event) (fetches : Fetches source timer now w item fresh state deeds)
      (supply_eq : supply (weight item) w.bucket = ⟨.ok supplied, b, events⟩)
      (ever : supplied ≠ .never) :
      Rounds w ⟨some (.ok (.item item)), ⟨state, b, supplied.deadline now, .nothing⟩,
        deeds ++ .reserved (weight item) (.ok supplied) :: events.map .reported⟩
  | kept (item : α) (fresh : Bool) (state : σ) (deeds : List (Deed α)) (nanos : Nat) (b : Bucket)
      (events : List Event) (fetches : Fetches source timer now w item fresh state deeds)
      (supply_eq : supply (weight item) w.bucket = ⟨.ok (.later nanos), b, events⟩) :
      Rounds w ⟨none, ⟨state, b, (Supply.later nanos).deadline now, .paid item⟩,
        deeds ++ .reserved (weight item) (.ok (.later nanos)) :: events.map .reported⟩

end

variable {σ α : Type} {source : Source σ α} {weight : α → Amount} {timer : Timer} {now : Nat}

theorem pos_of_supply_eq {n : Amount} {b b' : Bucket} {nanos : Nat} {events : List Event}
    (h : supply n b = ⟨.ok (.later nanos), b', events⟩) : 0 < nanos := by
  cases supplies_of_eq h with
  | later d a pos => exact pos

theorem Rounds.running {w : Weighted σ α} {r : Round (Weighted σ α) α}
    (h : Rounds source weight timer now w r) (again : r.answer = none) :
    timer.running now r.stream.delay = true := by
  cases h with
  | waits | released | unfilled | given => cases again
  | refused => exact Timer.running_of_lt (Nat.lt_add_of_pos_right (by decide))
  | kept item fresh state deeds nanos b events fetches supply_eq =>
    exact Timer.running_of_lt (Nat.lt_add_of_pos_right (pos_of_supply_eq supply_eq))

def Trail.map {β τ τ' α : Type} (f : τ → τ') (t : Trail β τ α) : Trail β τ' α :=
  ⟨t.answer, f t.stream, t.deeds⟩

namespace Paced

def hold (p : Paced σ α) : Hold α :=
  match p.held with
  | none => .nothing
  | some item => .unpaid item

/-- A paced stream is a weighted one that never keeps back an item that is paid. -/
def toWeighted (p : Paced σ α) : Weighted σ α := ⟨p.source, p.bucket, p.delay, p.hold⟩

def pay (p : Paced σ α) (now : Nat) (item : α) (fresh : Bool) : Round (Paced σ α) α :=
  let out := supply .one p.bucket
  let p := { p with bucket := out.bucket }
  let deeds := .reserved .one out.answer :: out.events.map .reported
  match out.answer with
  | .error fault => ⟨some (.error fault), p, deeds⟩
  | .ok .ready => ⟨some (.ok (.item item)), { p with delay := none }, deeds⟩
  | .ok (.later nanos) => ⟨some (.ok (.item item)), { p with delay := some (now + nanos) }, deeds⟩
  | .ok .never =>
    let report := if fresh then [Deed.reported (.held none)] else []
    ⟨none, { p with held := some item, delay := some (now + retryInterval) }, deeds ++ report⟩

def round (source : Source σ α) (timer : Timer) (now : Nat) (p : Paced σ α) : Round (Paced σ α) α :=
  if timer.running now p.delay then ⟨some (.ok .pending), p, []⟩
  else
    match p.held with
    | some item => { p with held := none }.pay now item false
    | none =>
      let asked := Deed.asked now p.hold p.delay
      match source.poll now p.source with
      | (.item item, state) =>
        let rest := { p with source := state }.pay now item true
        { rest with deeds := asked (.item item) :: rest.deeds }
      | (.ended, state) => ⟨some (.ok .ended), { p with source := state }, [asked .ended]⟩
      | (.pending, state) => ⟨some (.ok .pending), { p with source := state }, [asked .pending]⟩

/-- What is left out of the poll is only the round that waits. -/
theorem pay_settle (p : Paced σ α) (now : Nat) (item : α) (fresh : Bool) :
    (p.pay now item fresh).settle.polling = p.deliver now item fresh := by
  unfold pay deliver
  generalize supply .one p.bucket = out
  obtain ⟨answer, bucket, events⟩ := out
  cases answer with
  | error fault => simp [Round.settle, Trail.polling]
  | ok supplied =>
    cases supplied with
    | ready | later => simp [Round.settle, Trail.polling]
    | never => cases fresh <;> simp [Round.settle, Trail.polling]

theorem round_settle (p : Paced σ α) :
    (p.round source timer now).settle.polling = p.poll source timer now := by
  unfold round poll
  split
  · next h => exact (if_pos h).symm
  · next h =>
    refine Eq.trans ?_ (if_neg h).symm
    cases p.held with
    | some item => exact pay_settle ..
    | none =>
      obtain ⟨answer, state⟩ := source.poll now p.source
      cases answer with
      | item item => exact pay_settle ..
      | ended => rfl
      | pending => rfl

theorem pay_rounds {w : Weighted σ α} {item : α} {fresh : Bool} {state : σ} {deeds : List (Deed α)}
    (fetches : Fetches source timer now w item fresh state deeds) (delay : Option Nat)
    {r : Round (Paced σ α) α}
    (hr : (⟨state, w.bucket, delay, none⟩ : Paced σ α).pay now item fresh = r) :
    Rounds source (fun _ => .one) timer now w ⟨r.answer, r.stream.toWeighted, deeds ++ r.deeds⟩ := by
  have hs := supplies .one w.bucket
  unfold pay at hr
  generalize hout : supply .one w.bucket = out at hs hr
  cases hs with
  | refused =>
    subst hr
    exact .refused item fresh state deeds none fetches
  | ready =>
    subst hr
    exact .given item fresh state deeds .ready _ [] fetches hout (by simp)
  | later =>
    subst hr
    exact .given item fresh state deeds (.later _) _ [_] fetches hout (by simp)

theorem rounds (p : Paced σ α) : Rounds source (fun _ => .one) timer now p.toWeighted
    ((p.round source timer now).map toWeighted) := by
  obtain ⟨state, bucket, delay, held⟩ := p
  unfold round
  cases hrunning : timer.running now delay with
  | true => exact .waits hrunning
  | false =>
    let w : Weighted σ α := ⟨state, bucket, delay, .nothing⟩
    have elapsed : timer.running now w.delay = false := hrunning
    cases held with
    | some item => exact pay_rounds (.held hrunning rfl) delay rfl
    | none =>
      cases hpolled : source.poll now state with
      | mk answer state' =>
        cases answer with
        | item item => exact pay_rounds (w := w) (.fresh state' elapsed rfl hpolled) delay rfl
        | ended => exact .unfilled .ended state' delay elapsed rfl hpolled (by simp) (.inl rfl)
        | pending => exact .unfilled .pending state' delay elapsed rfl hpolled (by simp) (.inl rfl)

def loop (source : Source σ α) (timer : Timer) (now : Nat) : Loop (Paced σ α) α where
  waits p := timer.running now p.delay
  round p := p.round source timer now
  waiting _ h := if_pos h
  again p h :=
    have rounds : Rounds source _ timer now _ _ := p.rounds
    rounds.running h

theorem loop_poll (p : Paced σ α) :
    ((loop source timer now).poll p).polling = p.poll source timer now := by
  rw [Loop.poll_eq]
  exact round_settle p

end Paced

namespace Weighted

def pay (w : Weighted σ α) (now : Nat) (item : α) (weight : Amount) (fresh : Bool) :
    Round (Weighted σ α) α :=
  let out := supply weight w.bucket
  let w := { w with bucket := out.bucket }
  let deeds := .reserved weight out.answer :: out.events.map .reported
  match out.answer with
  | .error fault => ⟨some (.error fault), { w with hold := .nothing }, deeds⟩
  | .ok .ready => ⟨some (.ok (.item item)), { w with hold := .nothing }, deeds⟩
  | .ok (.later nanos) => ⟨none, { w with hold := .paid item, delay := some (now + nanos) }, deeds⟩
  | .ok .never =>
    let report := if fresh then [Deed.reported (.held weight)] else []
    ⟨none, { w with hold := .unpaid item, delay := some (now + retryInterval) }, deeds ++ report⟩

def round (source : Source σ α) (weight : α → Amount) (timer : Timer) (now : Nat) (w : Weighted σ α) :
    Round (Weighted σ α) α :=
  if timer.running now w.delay then ⟨some (.ok .pending), w, []⟩
  else
    let asked := Deed.asked now w.hold w.delay
    let w := { w with delay := none }
    match w.hold with
    | .paid item => ⟨some (.ok (.item item)), { w with hold := .nothing }, []⟩
    | .unpaid item => w.pay now item (weight item) false
    | .nothing =>
      match source.poll now w.source with
      | (.item item, state) =>
        let rest := { w with source := state }.pay now item (weight item) true
        { rest with deeds := asked (.item item) :: rest.deeds }
      | (.ended, state) => ⟨some (.ok .ended), { w with source := state }, [asked .ended]⟩
      | (.pending, state) => ⟨some (.ok .pending), { w with source := state }, [asked .pending]⟩

theorem pay_settle (w : Weighted σ α) (now : Nat) (item : α) (weight : Amount) (fresh : Bool) :
    (w.pay now item weight fresh).settle.polling = w.deliver now item weight fresh := by
  unfold pay deliver
  generalize supply weight w.bucket = out
  obtain ⟨answer, bucket, events⟩ := out
  cases answer with
  | error fault => simp [Round.settle, Trail.polling]
  | ok supplied =>
    cases supplied with
    | ready | later => simp [Round.settle, Trail.polling]
    | never => cases fresh <;> simp [Round.settle, Trail.polling]

theorem round_settle (w : Weighted σ α) :
    (w.round source weight timer now).settle.polling = w.poll source weight timer now := by
  unfold round poll
  split
  · next h => exact (if_pos h).symm
  · next h =>
    refine Eq.trans ?_ (if_neg h).symm
    dsimp only
    cases w.hold with
    | paid item => rfl
    | unpaid item => exact pay_settle ..
    | nothing =>
      obtain ⟨answer, state⟩ := source.poll now w.source
      cases answer with
      | item item => exact pay_settle ..
      | ended => rfl
      | pending => rfl

theorem pay_rounds {w : Weighted σ α} {item : α} {fresh : Bool} {state : σ} {deeds : List (Deed α)}
    (fetches : Fetches source timer now w item fresh state deeds) (hold : Hold α)
    {r : Round (Weighted σ α) α}
    (hr : (⟨state, w.bucket, none, hold⟩ : Weighted σ α).pay now item (weight item) fresh = r) :
    Rounds source weight timer now w ⟨r.answer, r.stream, deeds ++ r.deeds⟩ := by
  have hs := supplies (weight item) w.bucket
  unfold pay at hr
  generalize hout : supply (weight item) w.bucket = out at hs hr
  cases hs with
  | refused =>
    subst hr
    exact .refused item fresh state deeds (some (weight item)) fetches
  | ready =>
    subst hr
    exact .given item fresh state deeds .ready _ [] fetches hout (by simp)
  | later =>
    subst hr
    exact .kept item fresh state deeds _ _ [_] fetches hout

theorem rounds (w : Weighted σ α) :
    Rounds source weight timer now w (w.round source weight timer now) := by
  unfold round
  cases elapsed : timer.running now w.delay with
  | true => exact .waits elapsed
  | false =>
    dsimp only
    cases hold : w.hold with
    | paid item => exact .released item elapsed hold
    | unpaid item => exact pay_rounds (.held elapsed hold) _ rfl
    | nothing =>
      cases hpolled : source.poll now w.source with
      | mk answer state =>
        cases answer with
        | item item => exact pay_rounds (.fresh state elapsed hold hpolled) _ rfl
        | ended => exact .unfilled .ended state none elapsed hold hpolled (by simp) (.inr rfl)
        | pending => exact .unfilled .pending state none elapsed hold hpolled (by simp) (.inr rfl)

def loop (source : Source σ α) (weight : α → Amount) (timer : Timer) (now : Nat) :
    Loop (Weighted σ α) α where
  waits w := timer.running now w.delay
  round w := w.round source weight timer now
  waiting _ h := if_pos h
  again w h := w.rounds.running h

theorem loop_poll (w : Weighted σ α) :
    ((loop source weight timer now).poll w).polling = w.poll source weight timer now := by
  rw [Loop.poll_eq]
  exact round_settle w

end Weighted
end Throttle.Stream
