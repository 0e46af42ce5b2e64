import Throttle.Action
import Throttle.Proofs.Alone

/-! Actions on a bucket, one after another. An action that comes to a request is answered by what the
operation makes of the account refilled to the present reading; any other action leaves the published
edition alone. -/

namespace Throttle

/-- An action of a run, with what came of it: the answer, the bucket that it left and what was
reported. -/
structure Deed where
  action : Action
  outcome : Outcome Reply

namespace Bucket

inductive Acts (b : Bucket) : Action → Outcome Reply → Prop
  | called (action : Action) (r : Request) (work : Account) (request : action.request? = some r)
      (refilled : b.account.refill b.clock.now = .ok work) :
      Acts b action ⟨.answered (r.operation work).answer, b.settle (r.operation work).publish,
        (r.operation work).reports⟩
  | invalid (limits : List Bandwidth) (e : ConfigurationError)
      (unbuilt : Configuration.build limits = .error e) :
      Acts b (.replace limits) ⟨.invalid e, b, []⟩
  | clock (m : Clock.Move) : Acts b (.moveClock m) ⟨.done, { b with clock := b.clock.move m }, []⟩
  | ledger : Acts b .ledger ⟨.ledger b.account.ledger, b, []⟩
  | configuration : Acts b .configuration ⟨.configuration b.account.configuration, b, []⟩
  | awaitable : Acts b .awaitable ⟨.awaitable b.awaitable, b, []⟩
  | describe (tall : Bool) (text : String) : Acts b (.describe tall) ⟨.text text, b, []⟩

variable {b : Bucket} {action : Action}

theorem actAmong_of_request {β : Type} {r : Request} (request : action.request? = some r)
    (rounds : List (Activity β)) : b.actAmong action rounds = b.request r rounds := by
  cases action with
  | call =>
    cases request
    rfl
  | replace limits =>
    rw [Action.request?] at request
    cases built : Configuration.build limits with
    | error e =>
      rw [built] at request
      cases request
    | ok c =>
      rw [built] at request
      cases request
      simp only [actAmong, built]
  | _ => cases request

theorem actAmong_of_request_none {β : Type} (request : action.request? = none)
    (rounds : List (Activity β)) :
    b.actAmong action rounds =
      ⟨((b.act action).answer, []), (b.act action).bucket, (b.act action).events⟩ := by
  cases action with
  | call r => cases request
  | replace limits =>
    cases built : Configuration.build limits with
    | error e => simp only [act, actAmong, built]
    | ok c =>
      rw [Action.request?, built] at request
      cases request
  | _ => rfl

theorem performAmong_nil {α β : Type} (operation : Operation α) (b : Bucket) :
    b.performAmong operation ([] : List (Activity β)) =
      ⟨((b.perform operation).answer, []), (b.perform operation).bucket, (b.perform operation).events⟩ :=
  rfl

theorem act_of_request {r : Request} {work : Account} (request : action.request? = some r)
    (refilled : b.account.refill b.clock.now = .ok work) :
    b.act action = ⟨.answered (r.operation work).answer, b.settle (r.operation work).publish,
      (r.operation work).reports⟩ := by
  rw [act, actAmong_of_request request, Bucket.request, performAmong_nil, perform_eq refilled]

theorem acts (b : Bucket) (action : Action) : b.Acts action (b.act action) := by
  cases request : action.request? with
  | some r =>
    obtain ⟨work, refilled, -⟩ := b.account.refill_ok b.clock.now
    rw [act_of_request request refilled]
    exact .called action r work request refilled
  | none =>
    cases action with
    | call r => cases request
    | replace limits =>
      cases built : Configuration.build limits with
      | error e =>
        rw [act, actAmong, built]
        exact .invalid limits e built
      | ok c =>
        rw [Action.request?, built] at request
        cases request
    | moveClock m => exact .clock m
    | ledger => exact .ledger
    | configuration => exact .configuration
    | awaitable => exact .awaitable
    | describe tall => exact .describe tall _

theorem actAll_cons (action : Action) (actions : List Action) (b : Bucket) :
    b.actAll (action :: actions) =
      ⟨(b.act action).answer :: ((b.act action).bucket.actAll actions).answer,
        ((b.act action).bucket.actAll actions).bucket,
        (b.act action).events ++ ((b.act action).bucket.actAll actions).events⟩ := rfl

def trace : List Action → Bucket → List Deed
  | [], _ => []
  | action :: actions, b => ⟨action, b.act action⟩ :: trace actions (b.act action).bucket

theorem actAll_eq_trace (actions : List Action) (b : Bucket) :
    b.actAll actions = ⟨(b.trace actions).map (·.outcome.answer),
      ((b.trace actions).getLast?.map (·.outcome.bucket)).getD b,
      (b.trace actions).flatMap (·.outcome.events)⟩ := by
  induction actions generalizing b with
  | nil => rfl
  | cons action actions ih =>
    rw [actAll_cons, ih, trace]
    cases trace actions (b.act action).bucket with
    | nil => simp
    | cons d ds => simp [List.getLast?_cons]

end Bucket
end Throttle
