import Throttle.Proofs.Races
import Throttle.Proofs.Sequences

/-! Calls that are refused, or only look. Each of them works on a copy, which it throws away however
far it got with it and whatever races it lost. So a run in which such calls are left out goes as it
went with them. -/

namespace Throttle

/-- The answer refuses what was asked for, or only shows something. -/
def Answer.isPassive : Answer → Bool
  | .consumed all => !all
  | .taken count => count == 0
  | .probed found => !found.consumed
  | .wait delay => delay.isInfinite
  | .added => false
  | .replaced clash => clash.isSome
  | .available _ => true

def Reply.isPassive : Reply → Bool
  | .answered answer => answer.isPassive
  | .done | .faulted _ => false
  | .invalid _ | .ledger _ | .configuration _ | .awaitable _ | .text _ => true

namespace Decision

variable {α β : Type} (answer : α) (a : Account) (reports : List Event) (d : Decision α) (f : α → β)

@[simp] theorem commit_answer : (commit answer a reports).answer = answer := rfl

@[simp] theorem commit_publish : (commit answer a reports).publish = some a := rfl

@[simp] theorem skip_answer : (skip answer reports).answer = answer := rfl

@[simp] theorem skip_publish : (skip answer reports).publish = none := rfl

@[simp] theorem map_answer : (d.map f).answer = f d.answer := rfl

@[simp] theorem map_publish : (d.map f).publish = d.publish := rfl

end Decision

theorem Request.publish_eq_none_iff (r : Request) (a : Account) :
    (r.operation a).publish = none ↔ (r.operation a).answer.isPassive := by
  cases r with
  | consume n =>
    simp only [operation, Operation.consume]
    split <;> simp [Answer.isPassive]
  | consumeUpTo limit =>
    simp only [operation, Operation.consumeUpTo]
    split
    · simp [Answer.isPassive]
    · next some => simp [Answer.isPassive, Int64.not_le.mp some]
  | probe n =>
    simp only [operation, Operation.probe]
    split <;> simp [Answer.isPassive]
  | reserve n maxWait =>
    have hzero : Nanos.zero.isInfinite = false := by decide
    have hinfinite : Nanos.infinite.isInfinite = true := by decide
    simp only [operation, Operation.reserve]
    split
    · simp [Answer.isPassive, hzero]
    · split
      · simp [Answer.isPassive, hinfinite]
      · next ends =>
        have hends : ¬(a.delay n.balance).isInfinite := (not_or.mp ends).1
        simp [Answer.isPassive, hends]
  | add n => simp [operation, Operation.add, Answer.isPassive]
  | replace c =>
    simp only [operation, Operation.replace]
    split <;> simp [Answer.isPassive]
  | available => simp [operation, Operation.available, Answer.isPassive]

/-- From a trace some deeds are left out, each of them refused or a mere view. -/
inductive Deed.Thins : List Deed → List Deed → Prop
  | nil : Thins [] []
  | keep (d : Deed) {ds kept : List Deed} (rest : Thins ds kept) : Thins (d :: ds) (d :: kept)
  | drop (d : Deed) {ds kept : List Deed} (passive : d.outcome.answer.isPassive)
      (rest : Thins ds kept) : Thins (d :: ds) kept

namespace Bucket

variable {b : Bucket}

/-- An action that is refused or only looks leaves the bucket as it was. -/
theorem act_of_passive {action : Action} (passive : (b.act action).answer.isPassive) :
    (b.act action).bucket = b := by
  have h := b.acts action
  generalize b.act action = out at h passive
  cases h with
  | called _ r work =>
    rw [(r.publish_eq_none_iff work).mpr passive]
    rfl
  | clock m => cases passive
  | _ => rfl

/-- Refusals and views can be left out of a run. -/
theorem actAll_of_thins {actions : List Action} {kept : List Deed}
    (h : Deed.Thins (b.trace actions) kept) :
    b.trace (kept.map Deed.action) = kept ∧
      (b.actAll (kept.map Deed.action)).bucket = (b.actAll actions).bucket := by
  induction actions generalizing b kept with
  | nil =>
    cases h
    exact ⟨rfl, rfl⟩
  | cons action actions ih =>
    cases h with
    | keep d rest =>
      obtain ⟨htrace, hbucket⟩ := ih rest
      rw [List.map_cons, trace, htrace]
      exact ⟨rfl, hbucket⟩
    | drop d passive rest =>
      rw [act_of_passive passive] at rest
      rw [actAll, act_of_passive passive]
      exact ih rest

end Bucket

namespace Call

variable {c : Call Answer} {r : Request} {s : Strategy} {e : Edition} {answer : Answer}

theorem published_of_passive (operation : c.operation = r.operation)
    (returned : (c.tryOnce s e).progress = .returned answer) (passive : answer.isPassive) :
    (c.tryOnce s e).published = e := by
  obtain ⟨work, refilled, -⟩ := c.work.refill_ok c.reading
  simp only [tryOnce, refilled, operation] at returned ⊢
  split at returned
  · rfl
  · next a' publishes =>
    split at returned
    · cases returned
      rw [← r.publish_eq_none_iff work, publishes] at passive
      cases passive
    · cases returned

theorem operation_of_running {c' : Call Answer} (running : (c.tryOnce s e).progress = .running c') :
    c'.operation = c.operation := by
  unfold tryOnce at running
  split at running
  · cases running
  · dsimp only at running
    split at running
    · cases running
    · split at running
      · cases running
      · cases running
        rfl

theorem finish_of_passive (operation : c.operation = r.operation)
    (returned : (c.finish s e).1 = .ok answer) (passive : answer.isPassive) :
    (c.finish s e).2.1 = e := by
  fun_induction finish c s e with
  | case1 c e turn answer' ended =>
    cases returned
    exact published_of_passive operation ended passive
  | case2 => cases returned
  | case3 c e turn c' running rest published events hrest ih =>
    rw [hrest] at ih
    have hsame := ih ((operation_of_running running).trans operation) returned
    exact hsame.trans (tryOnce_running running).2.2

end Call

namespace Bucket

def play {β : Type} : List (Activity β) → Activity (List β)
  | [], b => ⟨[], b, []⟩
  | round :: rounds, b =>
    let first := round b
    let rest := play rounds first.bucket
    ⟨first.answer :: rest.answer, rest.bucket, first.events ++ rest.events⟩

end Bucket

theorem Call.finishAmong_of_passive {β : Type} {c : Call Answer} {r : Request} {answer : Answer}
    (rounds : List (Activity β)) (b : Bucket) (operation : c.operation = r.operation)
    (returned : (c.finishAmong rounds b).answer.1 = .ok answer) (passive : answer.isPassive) :
    ∃ n, (c.finishAmong rounds b).bucket = (b.play (rounds.take n)).bucket ∧
      (c.finishAmong rounds b).answer.2 = (b.play (rounds.take n)).answer := by
  induction rounds generalizing c b with
  | nil =>
    refine ⟨0, ?_, rfl⟩
    have hsame := Call.finish_of_passive operation returned passive
    change ({ b with published := (c.finish b.strategy b.published).2.1 } : Bucket) = b
    rw [hsame]
  | cons round rounds ih =>
    simp only [finishAmong] at returned ⊢
    split at returned
    · next answer' ended =>
      cases returned
      have hsame := published_of_passive operation ended passive
      refine ⟨1, ?_, rfl⟩
      rw [hsame]
      rfl
    · cases returned
    · next c' running =>
      obtain ⟨n, hbucket, hanswers⟩ := ih _ ((operation_of_running running).trans operation) returned
      have hsame := (tryOnce_running running).2.2
      refine ⟨n + 1, ?_, ?_⟩
      · rw [hbucket, hsame]
        rfl
      · rw [hanswers, hsame]
        rfl

namespace Bucket

/-- A whole action that is refused or only looks leaves the bucket as the rounds of others have left
it that came to pass meanwhile. -/
theorem actAmong_of_passive {β : Type} {b : Bucket} {action : Action} (rounds : List (Activity β))
    (passive : (b.actAmong action rounds).answer.1.isPassive) :
    ∃ n, (b.actAmong action rounds).bucket = (b.play (rounds.take n)).bucket ∧
      (b.actAmong action rounds).answer.2 = (b.play (rounds.take n)).answer := by
  cases request : action.request? with
  | some r =>
    rw [actAmong_of_request request] at passive ⊢
    simp only [Bucket.request] at passive ⊢
    split at passive
    · next answer others returned =>
      obtain ⟨n, hbucket, hothers⟩ := Call.finishAmong_of_passive rounds b rfl
        (congrArg Prod.fst returned) passive
      exact ⟨n, hbucket, (congrArg Prod.snd returned).symm.trans hothers⟩
    · cases passive
  | none =>
    rw [actAmong_of_request_none request] at passive ⊢
    exact ⟨0, act_of_passive passive, rfl⟩

end Bucket

def Happening.caller : Happening → Nat
  | .called k .. | .published k .. | .reported k _ | .returned k .. | .faulted k _ => k

namespace World

variable {w w' v : World} {m : Move} {hs : List Happening} {ms : List Move} {k b i j : Nat}

theorem Steps.caller_eq (h : w.Steps m w' hs) : ∀ x ∈ hs, x.caller = m.caller := by
  intro x hx
  cases h with
  | ignored => cases hx
  | called k r t => rw [List.mem_singleton.mp hx]; rfl
  | loaded => cases hx
  | skipped k =>
    rcases List.mem_append.mp hx with hx | hx
    · obtain ⟨e, -, rfl⟩ := List.mem_map.mp hx
      rfl
    · rw [List.mem_singleton.mp hx]
      rfl
  | committed k =>
    rw [List.cons_append, List.mem_cons, List.mem_append, List.mem_singleton] at hx
    rcases hx with rfl | hx | rfl
    · rfl
    · obtain ⟨e, -, rfl⟩ := List.mem_map.mp hx
      rfl
    · rfl
  | lost k => rw [List.mem_singleton.mp hx]; rfl

theorem step_standing_of_ne (w : World) (hk : m.caller ≠ k) :
    (w.step m).1.standing k = w.standing k := by
  cases m with
  | call j r t =>
    rw [step]
    split
    · exact put_standing_of_ne _ _ (Ne.symm hk)
    · rfl
  | load j =>
    rw [step]
    split
    · exact put_standing_of_ne _ _ (Ne.symm hk)
    · rfl
  | attempt j =>
    rw [step]
    split
    · dsimp only
      split <;> exact put_standing_of_ne _ _ (Ne.symm hk)
    · rfl

/-- The two worlds differ in nothing but the standing of caller `k`. -/
structure Beside (k : Nat) (w v : World) : Prop where
  strategy : v.strategy = w.strategy
  published : v.published = w.published
  standing : ∀ j ≠ k, v.standing j = w.standing j

theorem Beside.refl (k : Nat) (w : World) : Beside k w w := ⟨rfl, rfl, fun _ _ => rfl⟩

theorem Beside.put (h : Beside k w v) (j : Nat) (x : Standing) : Beside k (w.put j x) (v.put j x) := by
  refine ⟨h.strategy, h.published, fun i hi => ?_⟩
  rw [put_standing, put_standing, h.standing i hi]

theorem Beside.step (h : Beside k w v) (other : m.caller ≠ k) :
    Beside k (w.step m).1 (v.step m).1 ∧ (v.step m).2 = (w.step m).2 := by
  have hm := h.standing m.caller other
  obtain ⟨strategy, published, standing⟩ := v
  obtain ⟨rfl, rfl, hstanding⟩ := h
  have hpublish : ∀ e, Beside k { w with published := e } ⟨w.strategy, e, standing⟩ :=
    fun _ => ⟨rfl, rfl, hstanding⟩
  have hsame := hpublish w.published
  cases m with
  | call j r t =>
    change standing j = w.standing j at hm
    simp only [World.step, hm]
    split
    · exact ⟨hsame.put j _, rfl⟩
    · exact ⟨hsame, rfl⟩
  | load j =>
    change standing j = w.standing j at hm
    simp only [World.step, hm]
    split
    · exact ⟨hsame.put j _, rfl⟩
    · exact ⟨hsame, rfl⟩
  | attempt j =>
    change standing j = w.standing j at hm
    simp only [World.step, hm]
    split
    · split <;> exact ⟨(hpublish _).put j _, rfl⟩
    · exact ⟨hsame, rfl⟩

/-- A move of the caller itself changes nothing else, unless it publishes. -/
theorem Beside.step_own (h : Beside k w v) (own : m.caller = k)
    (still : (w.step m).1.published = w.published) : Beside k (w.step m).1 v :=
  ⟨h.strategy.trans (w.step_strategy_eq m).symm, h.published.trans still.symm, fun j hj => by
    rw [h.standing j hj, w.step_standing_of_ne (own ▸ Ne.symm hj)]⟩

/-- The moves of the other callers go alike without those of a caller that publishes nothing. -/
theorem Beside.run (hw : w.Consistent) (h : Beside k w v)
    (still : ∀ i, (ms[i]?).map Move.caller = some k →
      (w.after ms (i + 1)).published = (w.after ms i).published) :
    Beside k (w.run ms).1 (v.run (ms.filter (·.caller ≠ k))).1 ∧
      (v.run (ms.filter (·.caller ≠ k))).1.standing k = v.standing k ∧
      (v.run (ms.filter (·.caller ≠ k))).2 = (w.run ms).2.filter (·.caller ≠ k) := by
  induction ms generalizing w v with
  | nil => exact ⟨h, rfl, rfl⟩
  | cons m ms ih =>
    have step := hw.steps m
    have hstill := fun i hi => still (i + 1) hi
    by_cases own : m.caller = k
    · have hnext := h.step_own own (still 0 (congrArg some own))
      obtain ⟨hbeside, hk, hseen⟩ := ih (step.consistent hw) hnext hstill
      have hown : (w.step m).2.filter (·.caller ≠ k) = [] :=
        List.filter_eq_nil_iff.mpr fun x hx => by simp [step.caller_eq x hx, own]
      rw [List.filter_cons_of_neg (by simp [own]), World.run, List.filter_append, hown]
      exact ⟨hbeside, hk, hseen⟩
    · obtain ⟨hnext, hsame⟩ := h.step own
      obtain ⟨hbeside, hk, hseen⟩ := ih (step.consistent hw) hnext hstill
      have hother : (w.step m).2.filter (·.caller ≠ k) = (w.step m).2 :=
        List.filter_eq_self.mpr fun x hx => by simpa [step.caller_eq x hx] using own
      rw [List.filter_cons_of_pos (by simpa using own), World.run, World.run, List.filter_append, hother,
        ← hsame, ← hseen]
      exact ⟨hbeside, hk.trans (v.step_standing_of_ne own), rfl⟩

theorem Beside.eq (h : Beside k w v) (standing : v.standing k = w.standing k) : v = w := by
  obtain ⟨strategy, published, standing'⟩ := v
  obtain ⟨rfl, rfl, hstanding⟩ := h
  obtain rfl : standing' = w.standing := by
    funext j
    by_cases hj : j = k
    · rw [hj]; exact standing
    · exact hstanding j hj
  rfl

theorem run_between (w : World) (ms : List Move) (hb : b ≤ i) :
    (w.after ms b).run ((ms.take i).drop b) = (w.after ms i, w.during ms b i) := by
  have hrun := w.run_take ms hb
  have hafter : w.after ms i = _ := congrArg Prod.fst hrun
  have hseen : w.seen ms i = _ := congrArg Prod.snd hrun
  rw [during, hafter, hseen, List.drop_left]

theorem after_between (w : World) (ms : List Move) (hj : b + j ≤ i) :
    (w.after ms b).after ((ms.take i).drop b) j = w.after ms (b + j) := by
  have htake : ((ms.take i).drop b).take j = (ms.take (b + j)).drop b := by
    rw [List.take_drop, List.take_take, min_eq_left hj]
  rw [after, htake, run_between w ms (Nat.le_add_right b j)]

end World

namespace Served

variable {w : World} {ms : List Move} {x : Served}

def without (x : Served) (ms : List Move) : List Move :=
  ms.take x.began ++ (((ms.take (x.returned + 1)).drop x.began).filter (·.caller ≠ x.caller) ++
    ms.drop (x.returned + 1))

/-- Nothing of the call is seen by the others: none of its moves publishes anything, and without them
the same happens and the run ends in the same world. -/
structure Unseen (x : Served) (w : World) (ms : List Move) : Prop where
  still : ∀ j, x.began ≤ j → j ≤ x.returned → (ms[j]?).map Move.caller = some x.caller →
    (w.after ms (j + 1)).published = (w.after ms j).published
  world : (w.run (x.without ms)).1 = (w.run ms).1
  seen : (w.run (x.without ms)).2 = w.seen ms x.began ++
    ((w.during ms x.began (x.returned + 1)).filter (·.caller ≠ x.caller) ++
      w.during ms (x.returned + 1) ms.length)

theorem happening_eq {z : Happening} {hs : List Happening} (returned : x.happening ∈ hs)
    (hone : hs.filter Happening.isReturn = [z]) : x.happening = z := by
  have hmem : x.happening ∈ hs.filter Happening.isReturn := List.mem_filter.mpr ⟨returned, rfl⟩
  rwa [hone, List.mem_singleton] at hmem

theorem Of.still_iff (hw : w.Consistent) (h : x.Of w ms) :
    (w.after ms (x.returned + 1)).published = (w.after ms x.returned).published ↔
      x.answer.isPassive := by
  have step := hw.steps_after h.attempt
  have answered := h.answered
  generalize w.after ms (x.returned + 1) = next at step ⊢
  generalize ((w.after ms x.returned).step (.attempt x.caller)).2 = seen at step answered
  cases step with
  | ignored => cases answered
  | skipped k r c work running refilled unpublished =>
    have hone := happening_eq answered (by rw [List.filter_append, World.filter_reported]; rfl)
    obtain ⟨-, -, -, hanswer⟩ := Happening.returned.inj hone
    rw [hanswer]
    exact ⟨fun _ => (r.publish_eq_none_iff work).mp unpublished, fun _ => rfl⟩
  | committed k r c work a' running current refilled publishes =>
    have hone := happening_eq answered (by
      rw [List.filter_append, List.filter_cons_of_neg (by simp [Happening.isReturn]),
        World.filter_reported]
      rfl)
    obtain ⟨-, -, -, hanswer⟩ := Happening.returned.inj hone
    rw [hanswer, ← r.publish_eq_none_iff work, publishes]
    refine ⟨fun same => absurd (congrArg Edition.number same) (Nat.succ_ne_self _), fun none => ?_⟩
    cases none
  | lost =>
    rw [List.mem_singleton] at answered
    cases answered

theorem Of.still (hw : w.Consistent) (h : x.Of w ms) (passive : x.answer.isPassive) (j : Nat)
    (hb : x.began ≤ j) (hj : j ≤ x.returned) (own : (ms[j]?).map Move.caller = some x.caller) :
    (w.after ms (j + 1)).published = (w.after ms j).published := by
  rcases Nat.lt_or_eq_of_le hj with hj | rfl
  · obtain ⟨m, hm, hcaller⟩ := Option.map_eq_some_iff.mp own
    have step := hw.steps_after hm
    have busy := h.began.busy (j + 1) (by omega) hj
    generalize w.after ms (j + 1) = next at step busy ⊢
    generalize ((w.after ms j).step m).2 = seen at step
    cases step with
    | committed k =>
      -- a call that has published is over
      obtain rfl : k = x.caller := hcaller
      exact absurd (World.put_standing_self ..) busy
    | _ => rfl
  · exact (h.still_iff hw).mpr passive

theorem Of.unseen (hw : w.Consistent) (h : x.Of w ms) (passive : x.answer.isPassive) :
    x.Unseen w ms := by
  obtain ⟨hlast, -⟩ := List.getElem?_eq_some_iff.mp h.attempt
  have hspan : x.began ≤ x.returned + 1 := h.began.lt.le.trans (Nat.le_succ _)
  have still := h.still hw passive
  have hmiddle := w.run_between ms hspan
  have hrest := w.run_between ms (Nat.succ_le_of_lt hlast)
  rw [List.take_length, World.after_length] at hrest
  have quiet : ∀ i, (((ms.take (x.returned + 1)).drop x.began)[i]?).map Move.caller = some x.caller →
      ((w.after ms x.began).after ((ms.take (x.returned + 1)).drop x.began) (i + 1)).published =
        ((w.after ms x.began).after ((ms.take (x.returned + 1)).drop x.began) i).published := by
    intro i hi
    rw [List.getElem?_drop, List.getElem?_take] at hi
    split at hi
    · rw [w.after_between ms (by omega), w.after_between ms (by omega)]
      exact still (x.began + i) (by omega) (by omega) hi
    · cases hi
  obtain ⟨hbeside, hk, hseen⟩ := (World.Beside.refl x.caller (w.after ms x.began)).run
    (hw.after x.began (by omega)) quiet
  rw [hmiddle] at hbeside hseen
  have hsame := hbeside.eq (by rw [hk, h.began.idle, h.idle_after hw])
  have hrun : w.run (x.without ms) = ((w.run ms).1, w.seen ms x.began ++
      ((w.during ms x.began (x.returned + 1)).filter (·.caller ≠ x.caller) ++
        w.during ms (x.returned + 1) ms.length)) := by
    rw [without, World.run_append, World.run_append]
    change ((((w.after ms x.began).run _).1.run _).1,
      w.seen ms x.began ++ (((w.after ms x.began).run _).2 ++ (((w.after ms x.began).run _).1.run _).2)) = _
    rw [hsame, hseen, hrest]
  exact ⟨still, by rw [hrun], by rw [hrun]⟩

theorem exists_of (hw : w.Consistent) (idle : ∀ k, w.standing k = .idle) {i k : Nat} {m : Move}
    {r : Request} {t : UInt64} {answer : Answer} (hm : ms[i]? = some m)
    (hone : ((w.after ms i).step m).2.filter Happening.isReturn = [.returned k r t answer]) :
    ∃ b p, Of ⟨k, r, t, answer, b, p, i⟩ w ms := by
  rcases World.exists_served hw idle hm with ⟨hnone, -⟩ | ⟨y, of, -, rfl, hreturns, -⟩
  · rw [hone] at hnone
    cases hnone
  · obtain ⟨hreturned⟩ := List.cons.inj (hone.symm.trans hreturns)
    cases hreturned
    exact ⟨y.began, y.point, of⟩

end Served

/-- Refusals and views are invisible. Left out of a run of actions, whatever the clock shows in between,
they change neither what comes of the other actions nor the bucket at the end. In a race such a call
publishes nothing, and without it the other callers go through the same. The bucket after it, whatever
races it lost, is the one that the others have left. -/
theorem refusals_invisible :
    (∀ (b : Bucket) (actions : List Action) (kept : List Deed), Deed.Thins (b.trace actions) kept →
      b.trace (kept.map Deed.action) = kept ∧
        (b.actAll (kept.map Deed.action)).bucket = (b.actAll actions).bucket) ∧
    (∀ (s : Strategy) (c : Configuration) (now : UInt64) (ms : List Move) (x : Served), s ≠ .unshared →
      x.Of (World.new s c now) ms → x.answer.isPassive → x.Unseen (World.new s c now) ms) ∧
    ∀ (β : Type) (b : Bucket) (action : Action) (rounds : List (Activity β)),
      (b.actAmong action rounds).answer.1.isPassive →
        ∃ n, (b.actAmong action rounds).bucket = (b.play (rounds.take n)).bucket ∧
          (b.actAmong action rounds).answer.2 = (b.play (rounds.take n)).answer :=
  ⟨fun _ _ _ thins => Bucket.actAll_of_thins thins,
    fun _ c now _ _ hs of passive => of.unseen (World.new_consistent hs c now) passive,
    fun _ _ _ rounds passive => Bucket.actAmong_of_passive rounds passive⟩

theorem refusals_invisible_tenTokens :
    ∃ c, c = Configuration.single (.perSecond ⟨10, by decide⟩) (by decide) ∧
      (∃ kept, Deed.Thins ((Bucket.new .atomic (.manual 0) c).trace
          [.call (.consume ⟨7, by decide⟩), .call (.consume ⟨5, by decide⟩), .moveClock (.set 1), .ledger,
            .call (.consume ⟨3, by decide⟩)]) kept ∧
        kept.map Deed.action =
          [.call (.consume ⟨7, by decide⟩), .moveClock (.set 1), .call (.consume ⟨3, by decide⟩)] ∧
        (Bucket.new .atomic (.manual 0) c).trace (kept.map Deed.action) = kept) ∧
      (∃ x : Served, x.Of (World.new .atomic c 0) World.lostRace ∧ x.caller = 0 ∧
        x.answer = .consumed false ∧ x.Unseen (World.new .atomic c 0) World.lostRace) ∧
      ∃ out, out = (Bucket.new .locked (.manual 0) c).actAmong (.call (.consume ⟨5, by decide⟩))
          [Bucket.actAll [.call (.consume ⟨7, by decide⟩)]] ∧
        out.events.filter Event.isRace = [.lostRace 1] ∧
        ∃ n, out.bucket = ((Bucket.new .locked (.manual 0) c).play
          ([Bucket.actAll [.call (.consume ⟨7, by decide⟩)]].take n)).bucket := by
  obtain ⟨hsequential, hraced, hamong⟩ := refusals_invisible
  refine ⟨_, rfl, ?_, ?_, _, rfl, by decide +kernel, ?_⟩
  · suffices h : ∃ kept, Deed.Thins _ kept ∧ _ = _ by
      obtain ⟨kept, thins, hkept⟩ := h
      exact ⟨kept, thins, hkept, (hsequential _ _ _ thins).1⟩
    exact ⟨_, .keep _ (.drop _ (by decide +kernel) (.keep _ (.drop _ rfl (.keep _ .nil)))), rfl⟩
  · have hw := World.new_consistent (s := .atomic) (by decide)
      (.single (.perSecond ⟨10, by decide⟩) (by decide)) 0
    have returned : (((World.new .atomic (.single (.perSecond ⟨10, by decide⟩) (by decide)) 0).after
        World.lostRace 6).step (.attempt 0)).2.filter Happening.isReturn =
          [.returned 0 (.consume ⟨5, by decide⟩) 0 (.consumed false)] := by
      decide +kernel
    obtain ⟨b, p, of⟩ := Served.exists_of hw (fun _ => rfl) rfl returned
    exact ⟨_, of, rfl, rfl, hraced _ _ _ _ _ (by decide) of rfl⟩
  · obtain ⟨n, hbucket, -⟩ := hamong _
      (Bucket.new .locked (.manual 0) (.single (.perSecond ⟨10, by decide⟩) (by decide)))
      (.call (.consume ⟨5, by decide⟩)) [Bucket.actAll [.call (.consume ⟨7, by decide⟩)]]
      (by decide +kernel)
    exact ⟨n, hbucket⟩

end Throttle
