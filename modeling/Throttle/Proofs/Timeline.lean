import Throttle.Interleaving
import Throttle.Proofs.Commits

/-! A shared bucket, move by move. What a call in progress works on is always a copy of the edition
it will compare against, whatever it tried before, so a move either leaves the published edition
alone or publishes what one call makes of it. -/

namespace Throttle

theorem Strategy.swap_eq {s : Strategy} (hs : s ≠ .unshared) (published expected : Edition)
    (a : Account) :
    s.swap published expected a =
      if published.number = expected.number then (none, published.succ a)
      else (some published, published) := by
  cases s with
  | atomic =>
    by_cases hn : published.number = expected.number
    · simp [swap, Edition.exchange, hn]
    · simp [swap, Edition.exchange, hn]
  | locked => rfl
  | unshared => exact absurd rfl hs

theorem Strategy.swap_self (s : Strategy) (e : Edition) (a : Account) :
    s.swap e e a = (none, e.succ a) := by
  cases s <;> simp [swap, Edition.exchange]

namespace Call

/-- How a call for `r` stands to the published edition: its copy is that of the edition it started
from, which is the published one unless its number is behind. -/
structure Follows (c : Call Answer) (r : Request) (published : Edition) : Prop where
  operation : c.operation = r.operation
  work : c.work = c.previous.account
  number_le : c.previous.number ≤ published.number
  current : c.previous.number = published.number → c.previous = published

def restart (c : Call Answer) (r : Request) (winner : Edition) : Call Answer :=
  ⟨r.operation, c.reading, winner, winner.account, nextAttempt c.attempt⟩

def retried (c : Call Answer) : List Event :=
  if c.attempt = 0 then [] else [.published c.attempt]

inductive Turns (c : Call Answer) (r : Request) (now : Edition) : Turn Answer → Prop
  | skipped (work : Account) (refilled : c.previous.account.refill c.reading = .ok work)
      (unpublished : (r.operation work).publish = none) :
      Turns c r now ⟨.returned (r.operation work).answer, now, (r.operation work).reports⟩
  | committed (work a' : Account) (current : c.previous = now)
      (refilled : now.account.refill c.reading = .ok work)
      (publishes : (r.operation work).publish = some a') :
      Turns c r now ⟨.returned (r.operation work).answer, now.succ a',
        c.retried ++ (r.operation work).reports⟩
  | lost (behind : c.previous.number < now.number) :
      Turns c r now ⟨.running (c.restart r now), now, [.lostRace (nextAttempt c.attempt)]⟩

theorem Follows.turns {c : Call Answer} {r : Request} {now : Edition} (h : c.Follows r now)
    {s : Strategy} (hs : s ≠ .unshared) : c.Turns r now (c.tryOnce s now) := by
  obtain ⟨work, refilled, -⟩ := Account.refill_ok c.previous.account c.reading
  rw [tryOnce, h.work, refilled, h.operation]
  dsimp only
  split
  · next unpublished => exact .skipped work refilled unpublished
  · next a' publishes =>
    rw [Strategy.swap_eq hs]
    by_cases hn : now.number = c.previous.number
    · have current := h.current hn.symm
      rw [if_pos hn]
      rw [current] at refilled
      exact .committed work a' current refilled publishes
    · rw [if_neg hn]
      dsimp only
      rw [Account.copyFrom_eq]
      have := h.number_le
      exact .lost (by omega)

/-- Nor does it matter for an attempt that nobody has overtaken. -/
theorem tryOnce_previous (c : Call Answer) (s s' : Strategy) :
    c.tryOnce s c.previous = c.tryOnce s' c.previous := by
  unfold tryOnce
  simp only [Strategy.swap_self]

end Call

namespace World

/-- Every call in progress works on a copy of the edition it started from. -/
structure Consistent (w : World) : Prop where
  shared : w.strategy ≠ .unshared
  paired : w.published.account.Paired
  follows : ∀ {k r c}, w.standing k = .running r c → c.Follows r w.published

def Ready (w : World) : Move → Prop
  | .call k _ _ => w.standing k = .idle
  | .load k => ∃ r t, w.standing k = .called r t
  | .attempt k => ∃ r c, w.standing k = .running r c

inductive Steps (w : World) : Move → World → List Happening → Prop
  | ignored (m : Move) (unready : ¬w.Ready m) : Steps w m w []
  | called (k : Nat) (r : Request) (t : UInt64) (idle : w.standing k = .idle) :
      Steps w (.call k r t) (w.put k (.called r t)) [.called k r t]
  | loaded (k : Nat) (r : Request) (t : UInt64) (called : w.standing k = .called r t) :
      Steps w (.load k) (w.put k (.running r (.load r.operation t w.published))) []
  | skipped (k : Nat) (r : Request) (c : Call Answer) (work : Account)
      (running : w.standing k = .running r c)
      (refilled : c.previous.account.refill c.reading = .ok work)
      (unpublished : (r.operation work).publish = none) :
      Steps w (.attempt k) (w.put k .idle)
        ((r.operation work).reports.map (.reported k) ++
          [.returned k r c.reading (r.operation work).answer])
  | committed (k : Nat) (r : Request) (c : Call Answer) (work a' : Account)
      (running : w.standing k = .running r c) (current : c.previous = w.published)
      (refilled : w.published.account.refill c.reading = .ok work)
      (publishes : (r.operation work).publish = some a') :
      Steps w (.attempt k) { w.put k .idle with published := w.published.succ a' }
        (.published k r c.reading (w.published.succ a') ::
          (c.retried ++ (r.operation work).reports).map (.reported k) ++
          [.returned k r c.reading (r.operation work).answer])
  | lost (k : Nat) (r : Request) (c : Call Answer) (running : w.standing k = .running r c)
      (behind : c.previous.number < w.published.number) :
      Steps w (.attempt k) (w.put k (.running r (c.restart r w.published)))
        [.reported k (.lostRace (Call.nextAttempt c.attempt))]

theorem Consistent.steps {w : World} (h : w.Consistent) (m : Move) :
    w.Steps m (w.step m).1 (w.step m).2 := by
  cases m with
  | call k r t =>
    rw [step]
    split
    · next idle => exact .called k r t idle
    · next busy => exact .ignored _ busy
  | load k =>
    rw [step]
    split
    · next r t called => exact .loaded k r t called
    · next other => exact .ignored _ fun ⟨r, t, h⟩ => other r t h
  | attempt k =>
    rw [step]
    split
    · next r c running =>
      have turns := (h.follows running).turns h.shared
      generalize c.tryOnce w.strategy w.published = turn at turns ⊢
      cases turns with
      | skipped work refilled unpublished =>
        simpa using Steps.skipped k r c work running refilled unpublished
      | committed work a' current refilled publishes =>
        have hn : (w.published.succ a').number ≠ w.published.number := Nat.succ_ne_self _
        simp only [if_neg hn, List.cons_append]
        exact .committed k r c work a' running current refilled publishes
      | lost behind => simpa using Steps.lost k r c running behind
    · next other => exact .ignored _ fun ⟨r, c, h⟩ => other r c h

theorem put_standing (w : World) (k j : Nat) (x : Standing) :
    (w.put k x).standing j = if j = k then x else w.standing j := rfl

theorem Consistent.put {w : World} (h : w.Consistent) (k : Nat) {x : Standing}
    (hx : ∀ {r c}, x = .running r c → c.Follows r w.published) : (w.put k x).Consistent := by
  refine ⟨h.shared, h.paired, fun {j _ _} hj => ?_⟩
  rw [put_standing] at hj
  split at hj
  · exact hx hj
  · exact h.follows hj

theorem Consistent.publish {w : World} (h : w.Consistent) {a : Account} (hp : a.Paired) :
    ({ w with published := w.published.succ a } : World).Consistent := by
  refine ⟨h.shared, hp, fun {j _ c} hj => ?_⟩
  have follows := h.follows hj
  refine ⟨follows.operation, follows.work, follows.number_le.trans (Nat.le_succ _), ?_⟩
  intro heq
  -- an edition of this number has just been published, and no call had started from it
  have heq : c.previous.number = w.published.number + 1 := heq
  have := follows.number_le
  omega

theorem Steps.consistent {w w' : World} {m : Move} {hs : List Happening} (h : w.Consistent)
    (step : w.Steps m w' hs) : w'.Consistent := by
  cases step with
  | ignored => exact h
  | called k => exact h.put k nofun
  | loaded k =>
    apply h.put k
    intro _ _ hx
    cases hx
    exact ⟨rfl, rfl, le_rfl, fun _ => rfl⟩
  | skipped k => exact h.put k nofun
  | committed k r c work a' running current refilled publishes =>
    have hcommits : w.published.account.Commits r c.reading _ a' :=
      .intro work refilled publishes rfl
    exact (h.put k (x := .idle) nofun).publish (hcommits.paired h.paired)
  | lost k =>
    apply h.put k
    intro _ _ hx
    cases hx
    exact ⟨rfl, rfl, le_rfl, fun _ => rfl⟩

theorem Steps.reachable {w w' : World} {m : Move} {hs : List Happening} (step : w.Steps m w' hs)
    (h : w.published.account.Reachable) : w'.published.account.Reachable := by
  cases step with
  | committed k r c work a' running current refilled publishes =>
    exact h.commit (.intro work refilled publishes rfl) trivial
  | _ => exact h

/-- However calls interleave, what is published could have come from calls one by one. -/
theorem Consistent.reachable {w : World} (hw : w.Consistent) (h : w.published.account.Reachable)
    (ms : List Move) : (w.run ms).1.published.account.Reachable := by
  induction ms generalizing w with
  | nil => exact h
  | cons m ms ih => exact ih ((hw.steps m).consistent hw) ((hw.steps m).reachable h)

theorem new_consistent {s : Strategy} (hs : s ≠ .unshared) (c : Configuration) (now : UInt64) :
    (new s c now).Consistent :=
  ⟨hs, Account.new_paired c now, fun h => by cases h⟩

/-! The world at each moment of a run. -/

def after (w : World) (ms : List Move) (i : Nat) : World := (w.run (ms.take i)).1

def seen (w : World) (ms : List Move) (i : Nat) : List Happening := (w.run (ms.take i)).2

theorem run_append (w : World) (ms ms' : List Move) :
    w.run (ms ++ ms') =
      (((w.run ms).1.run ms').1, (w.run ms).2 ++ ((w.run ms).1.run ms').2) := by
  induction ms generalizing w with
  | nil => rfl
  | cons m ms ih => simp only [List.cons_append, run, ih, List.append_assoc]

theorem after_zero (w : World) (ms : List Move) : w.after ms 0 = w := rfl

theorem seen_zero (w : World) (ms : List Move) : w.seen ms 0 = [] := rfl

theorem after_length (w : World) (ms : List Move) : w.after ms ms.length = (w.run ms).1 := by
  rw [after, List.take_length]

theorem seen_length (w : World) (ms : List Move) : w.seen ms ms.length = (w.run ms).2 := by
  rw [seen, List.take_length]

section

variable {w : World} {ms : List Move} {i : Nat} {m : Move}

theorem run_take_succ (h : ms[i]? = some m) :
    w.run (ms.take (i + 1)) =
      (((w.after ms i).step m).1, w.seen ms i ++ ((w.after ms i).step m).2) := by
  rw [List.take_add_one, h, Option.toList_some, run_append]
  simp [run, after, seen]

theorem after_succ (h : ms[i]? = some m) : w.after ms (i + 1) = ((w.after ms i).step m).1 := by
  rw [after, run_take_succ h]

theorem seen_succ (h : ms[i]? = some m) :
    w.seen ms (i + 1) = w.seen ms i ++ ((w.after ms i).step m).2 := by
  rw [seen, run_take_succ h]

theorem Consistent.after (h : w.Consistent) : ∀ i, i ≤ ms.length → (w.after ms i).Consistent := by
  intro i
  induction i with
  | zero => intro _; exact h
  | succ i ih =>
    intro hi
    have hm := List.getElem?_eq_getElem (l := ms) (i := i) (by omega)
    have hw := ih (by omega)
    rw [after_succ hm]
    exact (hw.steps _).consistent hw

theorem Consistent.steps_after (h : w.Consistent) (hm : ms[i]? = some m) :
    (w.after ms i).Steps m (w.after ms (i + 1)) ((w.after ms i).step m).2 := by
  obtain ⟨hi, -⟩ := List.getElem?_eq_some_iff.mp hm
  rw [after_succ hm]
  exact (h.after i hi.le).steps m

end

/-- No call is overtaken: each one at work started from what is published. -/
def Undisturbed (w : World) (ms : List Move) : Prop :=
  ∀ j ≤ ms.length, ∀ k r c, (w.after ms j).standing k = .running r c →
    c.previous = (w.after ms j).published

theorem step_strategy {w : World} (s : Strategy) (m : Move)
    (h : ∀ k r c, w.standing k = .running r c →
      c.tryOnce s w.published = c.tryOnce w.strategy w.published) :
    ({ w with strategy := s } : World).step m = ({ (w.step m).1 with strategy := s }, (w.step m).2) := by
  cases m with
  | call k r t =>
    dsimp only [step]
    split <;> rfl
  | load k =>
    dsimp only [step]
    split <;> rfl
  | attempt k =>
    dsimp only [step]
    split
    · next r c running =>
      rw [h k r c running]
      split <;> rfl
    · rfl

theorem Undisturbed.step_eq {w : World} {ms : List Move} (h : w.Undisturbed ms) (s : Strategy) {j : Nat}
    (hj : j ≤ ms.length) (m : Move) :
    ({ w.after ms j with strategy := s } : World).step m =
      ({ ((w.after ms j).step m).1 with strategy := s }, ((w.after ms j).step m).2) :=
  step_strategy s m fun k r c running => by rw [← h j hj k r c running, c.tryOnce_previous s]

/-- How a bucket is shared makes no difference to calls that are not overtaken. -/
theorem Undisturbed.run_strategy {w : World} {ms : List Move} (h : w.Undisturbed ms) (s : Strategy) :
    ∀ j, j ≤ ms.length →
      ({ w with strategy := s } : World).after ms j = { w.after ms j with strategy := s } ∧
        ({ w with strategy := s } : World).seen ms j = w.seen ms j := by
  intro j
  induction j with
  | zero => intro _; exact ⟨rfl, rfl⟩
  | succ j ih =>
    intro hj
    have hm := List.getElem?_eq_getElem (l := ms) (i := j) (by omega)
    obtain ⟨hafter, hseen⟩ := ih (by omega)
    have hstep := h.step_eq s (j := j) (by omega) ms[j]
    rw [← hafter] at hstep
    rw [after_succ hm, seen_succ hm, hstep, hseen, after_succ hm, seen_succ hm]
    exact ⟨rfl, rfl⟩

theorem Undisturbed.strategy {w : World} {ms : List Move} (h : w.Undisturbed ms) (s : Strategy) :
    ({ w with strategy := s } : World).Undisturbed ms := by
  intro j hj k r c running
  rw [(h.run_strategy s j hj).1] at running ⊢
  exact h j hj k r c running

end World
end Throttle
