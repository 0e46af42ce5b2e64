import Throttle.Stream.Paced
import Throttle.Stream.Weighted

/-! A stream on a bucket, played back on a time line that moves only while everything waits, and
then straight to the next instant at which a wait is over. -/

namespace Throttle.Stream

inductive Adapter where
  | paced (stream : Paced (Arrivals UInt64) UInt64)
  | weighted (stream : Weighted (Arrivals UInt64) UInt64)

/-- An item weighs as much as its number; a zero weighs one. -/
def itemWeight (item : UInt64) : Amount :=
  if positive : item ≠ 0 then ⟨item, positive⟩ else .one

namespace Adapter

def bucket : Adapter → Bucket
  | .paced s => s.bucket
  | .weighted s => s.bucket

def withBucket (b : Bucket) : Adapter → Adapter
  | .paced s => .paced { s with bucket := b }
  | .weighted s => .weighted { s with bucket := b }

def poll (now : Nat) : Adapter → Polling Adapter UInt64
  | .paced s =>
    let out := s.poll Arrivals.source .milliseconds now
    ⟨out.answer, .paced out.stream, out.events⟩
  | .weighted s =>
    let out := s.poll Arrivals.source itemWeight .milliseconds now
    ⟨out.answer, .weighted out.stream, out.events⟩

/-- When the wait of a pending stream is over: the delay's if that is not over yet, and else the
source's. -/
def wake (now : Nat) (a : Adapter) : Option Nat :=
  let (delay, due) :=
    match a with
    | .paced s => (s.delay, s.source.due)
    | .weighted s => (s.delay, s.source.due)
  match delay.map Timer.wholeMillisecond with
  | some instant => if now < instant then some instant else due
  | none => due

end Adapter

structure Playback where
  now : Nat
  adapter : Adapter

inductive Playback.Action where
  /-- Asks for an item for so many milliseconds. -/
  | next (patience : Nat)
  /-- Asks once. -/
  | poll
  /-- Leaves the stream alone for so many milliseconds. -/
  | sleep (millis : Nat)
  | moveClock (m : Clock.Move)
  | add (n : Amount)
  | configuration

inductive Playback.Reply where
  | done
  | polled (answer : Polled UInt64)
  | timedOut
  | configuration (c : Configuration)
  | faulted (fault : Fault)

structure Playback.Outcome where
  reply : Playback.Reply
  playback : Playback
  events : List Event

namespace Playback

def moveTo (p : Playback) (instant : Nat) : Playback :=
  let b := p.adapter.bucket
  ⟨instant, p.adapter.withBucket { b with clock := b.clock.follow instant }⟩

/-- The next instant at which something is over; later than now, and not after the deadline. -/
def nextInstant (p : Playback) (deadline : Nat) : Nat :=
  min deadline (max (p.now + 1) ((p.adapter.wake p.now).getD deadline))

/-- Polls whenever a wait is over, until an item, the end or the deadline; at the deadline the
stream is asked first. -/
def awaitItem (deadline : Nat) (p : Playback) (events : List Event) : Outcome :=
  let out := p.adapter.poll p.now
  let p' : Playback := ⟨p.now, out.stream⟩
  let events := events ++ out.events
  match out.answer with
  | .error fault => ⟨.faulted fault, p', events⟩
  | .ok .pending =>
    if p.now < deadline then awaitItem deadline (p'.moveTo (p'.nextInstant deadline)) events
    else ⟨.timedOut, p', events⟩
  | .ok answer => ⟨.polled answer, p', events⟩
termination_by deadline - p.now
decreasing_by
  simp only [moveTo, nextInstant]
  omega

def act (p : Playback) : Action → Outcome
  | .next patience => awaitItem (p.now + patience * millisecond) p []
  | .poll =>
    let out := p.adapter.poll p.now
    let p := { p with adapter := out.stream }
    match out.answer with
    | .error fault => ⟨.faulted fault, p, out.events⟩
    | .ok answer => ⟨.polled answer, p, out.events⟩
  | .sleep millis => ⟨.done, p.moveTo (p.now + millis * millisecond), []⟩
  | .moveClock m =>
    let b := p.adapter.bucket
    ⟨.done, { p with adapter := p.adapter.withBucket { b with clock := b.clock.move m } }, []⟩
  | .add n =>
    let out := p.adapter.bucket.perform (Operation.add n)
    let p := { p with adapter := p.adapter.withBucket out.bucket }
    match out.answer with
    | .error fault => ⟨.faulted fault, p, out.events⟩
    | .ok () => ⟨.done, p, out.events⟩
  | .configuration => ⟨.configuration p.adapter.bucket.account.configuration, p, []⟩

def available (p : Playback) : Except Fault Balance :=
  (p.adapter.bucket.perform Operation.available).answer

end Playback
end Throttle.Stream
