import Throttle.Proofs.Races
import Throttle.Proofs.Sequences

/-! Strategies in each other's place. A call that nobody overtakes swaps against what is published,
which every strategy allows. Where calls overtake each other, both ways of sharing give the same winner
to the same callers. So all that an activity does on a bucket is also what it does on the same bucket
under another strategy. -/

namespace Throttle

variable {α β : Type} {s : Strategy}

def Bucket.onto (b : Bucket) (s : Strategy) : Bucket := { b with strategy := s }

namespace Outcome

def onto (o : Outcome α) (s : Strategy) : Outcome α := { o with bucket := o.bucket.onto s }

@[simp] theorem onto_answer (o : Outcome α) (s : Strategy) : (o.onto s).answer = o.answer := rfl

@[simp] theorem onto_bucket (o : Outcome α) (s : Strategy) : (o.onto s).bucket = o.bucket.onto s := rfl

@[simp] theorem onto_events (o : Outcome α) (s : Strategy) : (o.onto s).events = o.events := rfl

end Outcome

def Deed.onto (d : Deed) (s : Strategy) : Deed := { d with outcome := d.outcome.onto s }

@[simp] theorem Deed.onto_outcome (d : Deed) (s : Strategy) : (d.onto s).outcome = d.outcome.onto s := rfl

/-! With one caller at a time. -/

namespace Bucket

theorem perform_onto (b : Bucket) (s : Strategy) (operation : Operation α) :
    (b.onto s).perform operation = (b.perform operation).onto s := by
  obtain ⟨work, refilled, -, performed⟩ := b.perform_ok operation
  rw [performed, perform_eq (b := b.onto s) refilled]
  cases (operation work).publish <;> rfl

theorem act_onto (b : Bucket) (s : Strategy) (action : Action) :
    (b.onto s).act action = (b.act action).onto s := by
  cases request : action.request? with
  | some r =>
    simp only [act, actAmong_of_request request, Bucket.request, performAmong_nil, perform_onto]
    cases hanswer : (b.perform r.operation).answer <;> simp only [Outcome.onto, hanswer]
  | none =>
    cases action with
    | call r => cases request
    | replace limits =>
      cases built : Configuration.build limits with
      | error e =>
        simp only [act, actAmong, built]
        rfl
      | ok c =>
        rw [Action.request?, built] at request
        cases request
    | _ => rfl

theorem trace_onto (actions : List Action) (b : Bucket) (s : Strategy) :
    (b.onto s).trace actions = (b.trace actions).map (·.onto s) := by
  induction actions generalizing b with
  | nil => rfl
  | cons action actions ih =>
    rw [trace, act_onto]
    exact congrArg _ (ih _)

theorem actAll_onto (actions : List Action) (b : Bucket) (s : Strategy) :
    (b.onto s).actAll actions = (b.actAll actions).onto s := by
  rw [actAll_eq_trace, actAll_eq_trace, trace_onto]
  simp only [List.map_map, List.getLast?_map, Option.map_map, List.flatMap_map, Function.comp_def,
    Deed.onto_outcome, Outcome.onto_answer, Outcome.onto_bucket, Outcome.onto_events]
  cases (b.trace actions).getLast? <;> rfl

end Bucket

/-- The attempts that a call comes to with nobody else at work, each with what is published then. -/
inductive Call.Attempts (s : Strategy) : Call α → Edition → Call α → Edition → Prop
  | first (c : Call α) (e : Edition) : Attempts s c e c e
  | next {c c' c'' : Call α} {e e' : Edition} (running : (c.tryOnce s e).progress = .running c')
      (rest : Attempts s c' (c.tryOnce s e).published c'' e') : Attempts s c e c'' e'

theorem Call.finish_eq (c : Call α) (s : Strategy) (e : Edition) :
    c.finish s e =
      match (c.tryOnce s e).progress with
      | .returned answer => (.ok answer, (c.tryOnce s e).published, (c.tryOnce s e).events)
      | .faulted fault => (.error fault, (c.tryOnce s e).published, (c.tryOnce s e).events)
      | .running c' =>
        let (answer, published, events) := c'.finish s (c.tryOnce s e).published
        (answer, published, (c.tryOnce s e).events ++ events) := by
  rw [finish]
  split <;> simp only [*]

/-- A call that starts from what is published has but one attempt, which swaps against that and leaves
published what the call does. -/
theorem Call.Attempts.current {c c' : Call α} {e e' : Edition} (h : Attempts s c e c' e')
    (current : c.previous = e) :
    c'.previous = e' ∧ (c.finish s e).2.1 = (c'.tryOnce s e').published := by
  have ends : ∀ c', (c.tryOnce s e).progress ≠ .running c' := fun c' running =>
    (tryOnce_running running).1 (by rw [current])
  cases h with
  | first =>
    refine ⟨current, ?_⟩
    rw [finish_eq]
    split
    · rfl
    · rfl
    · next c' running => exact absurd running (ends c')
  | next running => exact absurd running (ends _)

/-! With calls that overtake each other. -/

section

variable {s' : Strategy} (hs : s ≠ .unshared) (hs' : s' ≠ .unshared)
include hs hs'

namespace Call

theorem tryOnce_shared (c : Call α) (e : Edition) : c.tryOnce s e = c.tryOnce s' e := by
  unfold tryOnce
  simp only [Strategy.swap_eq hs, Strategy.swap_eq hs']

theorem finish_shared (c : Call α) (e : Edition) : c.finish s e = c.finish s' e := by
  fun_induction finish c s e with
  | case1 c e turn answer ended =>
    rw [finish_eq c s' e, ← tryOnce_shared hs hs', ended]
  | case2 c e turn fault ended =>
    rw [finish_eq c s' e, ← tryOnce_shared hs hs', ended]
  | case3 c e turn c' running rest published events hrest ih =>
    rw [finish_eq c s' e, ← tryOnce_shared hs hs', running]
    dsimp only
    rw [← ih, hrest]

end Call

end

def Activity.Blind (f : Activity α) : Prop :=
  ∀ (b : Bucket) (s : Strategy), b.strategy ≠ .unshared → s ≠ .unshared → f (b.onto s) = (f b).onto s

theorem Activity.Blind.strategy_eq {f : Activity α} (h : f.Blind) {b : Bucket}
    (hb : b.strategy ≠ .unshared) : (f b).bucket.strategy = b.strategy := by
  have hself : f b = (f b).onto b.strategy := h b b.strategy hb hb
  rw [hself]
  rfl

theorem Call.finishAmong_blind (c : Call α) {rounds : List (Activity β)}
    (blind : ∀ round ∈ rounds, round.Blind) : (c.finishAmong rounds).Blind := by
  intro b s hb hs
  induction rounds generalizing c b with
  | nil =>
    simp only [finishAmong, Bucket.onto, finish_shared hs hb]
    rfl
  | cons round rounds ih =>
    obtain ⟨first, rest⟩ := List.forall_mem_cons.mp blind
    have hb' : (round b).bucket.strategy ≠ .unshared := (first.strategy_eq hb).trans_ne hb
    simp only [finishAmong, first b s hb hs]
    generalize round b = out at hb' ⊢
    obtain ⟨others, ⟨strategy, clock, now⟩, seen⟩ := out
    simp only [Outcome.onto, Bucket.onto, tryOnce_shared hs hb']
    generalize c.tryOnce strategy now = turn
    obtain ⟨progress, published, events⟩ := turn
    cases progress with
    | returned answer => rfl
    | faulted fault => rfl
    | running c' =>
      have hrest := ih c' rest (b := ⟨strategy, clock, published⟩) hb'
      simp only [Bucket.onto] at hrest
      simp only [hrest]
      rfl

namespace Bucket

theorem request_blind (r : Request) {rounds : List (Activity β)}
    (blind : ∀ round ∈ rounds, round.Blind) : Activity.Blind (Bucket.request r rounds) := by
  intro b s hb hs
  have hout : (b.onto s).performAmong r.operation rounds = (b.performAmong r.operation rounds).onto s :=
    Call.finishAmong_blind (b.load r.operation) blind b s hb hs
  simp only [Bucket.request, hout, Outcome.onto_answer]
  generalize b.performAmong r.operation rounds = out
  obtain ⟨⟨answer, others⟩, bucket, events⟩ := out
  cases answer <;> rfl

/-- An action does the same whichever way the bucket is shared, if that is so of what the others do
meanwhile. -/
theorem actAmong_blind (action : Action) {rounds : List (Activity β)}
    (blind : ∀ round ∈ rounds, round.Blind) : Activity.Blind (Bucket.actAmong action rounds) := by
  intro b s hb hs
  cases request : action.request? with
  | some r =>
    rw [actAmong_of_request request, actAmong_of_request request]
    exact request_blind r blind b s hb hs
  | none =>
    rw [actAmong_of_request_none request, actAmong_of_request_none request, act_onto]
    rfl

theorem actAll_blind (actions : List Action) : Activity.Blind (Bucket.actAll actions) :=
  fun b s _ _ => actAll_onto actions b s

end Bucket

/-- An action, and what others do from beginning to end before each of its attempts. -/
structure Contest where
  action : Action
  rounds : List (List Action)

namespace Bucket

def contests : List Contest → Bucket → List (Outcome (Reply × List (List Reply)))
  | [], _ => []
  | x :: xs, b =>
    let out := b.actAmong x.action (x.rounds.map actAll)
    out :: contests xs out.bucket

theorem contests_onto (xs : List Contest) {b : Bucket} (hb : b.strategy ≠ .unshared)
    (hs : s ≠ .unshared) : (b.onto s).contests xs = (b.contests xs).map (·.onto s) := by
  induction xs generalizing b with
  | nil => rfl
  | cons x xs ih =>
    have blind : Activity.Blind (Bucket.actAmong x.action (x.rounds.map actAll)) := by
      refine actAmong_blind x.action fun round hround => ?_
      obtain ⟨actions, -, rfl⟩ := List.mem_map.mp hround
      exact actAll_blind actions
    rw [contests, blind b s hb hs]
    exact congrArg _ (ih (blind.strategy_eq hb ▸ hb))

end Bucket

namespace World

def onto (w : World) (s : Strategy) : World := { w with strategy := s }

theorem run_onto (ms : List Move) {w : World} (hw : w.strategy ≠ .unshared) (hs : s ≠ .unshared) :
    (w.onto s).run ms = ((w.run ms).1.onto s, (w.run ms).2) := by
  induction ms generalizing w with
  | nil => rfl
  | cons m ms ih =>
    have hstep : (w.onto s).step m = ((w.step m).1.onto s, (w.step m).2) :=
      step_strategy s m fun _ _ c _ => c.tryOnce_shared hs hw w.published
    rw [run, hstep]
    dsimp only
    rw [ih ((w.step_strategy_eq m).trans_ne hw)]
    rfl

end World

/-- Strategies are interchangeable. With one caller at a time all three give the same answers and
publish the same editions after every action, and whatever a call publishes it swaps against the
edition that is still published, so nothing is lost where no comparison is made. With others at work,
from beginning to end before each attempt or move by move, both ways of sharing give the same answers,
publish the same editions and report the same lost races. -/
theorem strategies_interchangeable :
    (∀ (s s' : Strategy) (clock : Clock) (c : Configuration) (actions : List Action),
      (Bucket.new s' clock c).trace actions = ((Bucket.new s clock c).trace actions).map (·.onto s')) ∧
    (∀ (b : Bucket) (r : Request) (call : Call Answer) (e : Edition),
      Call.Attempts b.strategy (b.load r.operation) b.published call e → call.previous = e ∧
        (b.perform r.operation).bucket.published = (call.tryOnce b.strategy e).published) ∧
    ∀ s s' : Strategy, s ≠ .unshared → s' ≠ .unshared →
      (∀ (clock : Clock) (c : Configuration) (xs : List Contest),
        (Bucket.new s' clock c).contests xs = ((Bucket.new s clock c).contests xs).map (·.onto s')) ∧
      ∀ (c : Configuration) (now : UInt64) (ms : List Move),
        (World.new s' c now).run ms =
          (((World.new s c now).run ms).1.onto s', ((World.new s c now).run ms).2) :=
  ⟨fun s s' clock c actions => Bucket.trace_onto actions (Bucket.new s clock c) s',
    fun _ _ _ _ attempts => attempts.current rfl,
    fun s _ hs hs' =>
      ⟨fun clock c xs => Bucket.contests_onto xs (b := Bucket.new s clock c) hs hs',
        fun c now ms => World.run_onto ms (w := World.new s c now) hs hs'⟩⟩

/-- Of forty tokens twenty-eight go before twenty-six are asked for in a call that has its copy by then.
They are there a second later. -/
def overtaken : List Contest :=
  [⟨.call (.consume ⟨26, by decide⟩), [[.call (.consume ⟨28, by decide⟩), .ledger]]⟩,
    ⟨.moveClock (.set 1000000000), []⟩, ⟨.call (.consume ⟨26, by decide⟩), []⟩]

theorem strategies_interchangeable_overtaken :
    ∃ c, c = Configuration.single (.perSecond ⟨40, by decide⟩) (by decide) ∧
      (Bucket.new .unshared (.manual 0) c).trace (overtaken.map Contest.action) =
        ((Bucket.new .atomic (.manual 0) c).trace (overtaken.map Contest.action)).map (·.onto .unshared) ∧
      (∃ call e, Call.Attempts .unshared
        ((Bucket.new .unshared (.manual 0) c).load (Request.consume .one).operation)
        (Bucket.new .unshared (.manual 0) c).published call e ∧ call.previous = e) ∧
      (((Bucket.new .atomic (.manual 0) c).contests overtaken).flatMap (·.events)).filter Event.isRace =
        [.lostRace 1] ∧
      (Bucket.new .locked (.manual 0) c).contests overtaken =
        ((Bucket.new .atomic (.manual 0) c).contests overtaken).map (·.onto .locked) ∧
      ((World.new .locked c 0).run World.lostRace).2 = ((World.new .atomic c 0).run World.lostRace).2 := by
  obtain ⟨halone, hcurrent, hshared⟩ := strategies_interchangeable
  obtain ⟨hcontests, hmoves⟩ := hshared .atomic .locked (by decide) (by decide)
  refine ⟨_, rfl, halone .atomic .unshared _ _ _, ?_, by decide +kernel, hcontests _ _ _, ?_⟩
  · exact ⟨_, _, .first _ _,
      (hcurrent (Bucket.new .unshared _ _) (.consume .one) _ _ (.first _ _)).1⟩
  · rw [hmoves]

end Throttle
