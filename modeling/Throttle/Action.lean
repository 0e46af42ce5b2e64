import Throttle.Bucket
import Throttle.Description
import Throttle.Request

/-! Whole actions on a bucket, one after another or against a call in progress. -/

namespace Throttle

inductive Action where
  | call (request : Request)
  /-- Builds a configuration of these limits and puts it in force. -/
  | replace (limits : List Bandwidth)
  | moveClock (m : Clock.Move)
  | ledger
  | configuration
  | awaitable
  | describe (tall : Bool)
deriving DecidableEq

def Action.request? : Action → Option Request
  | .call r => some r
  | .replace limits => (Configuration.build limits).toOption.map .replace
  | _ => none

inductive Reply where
  | done
  | answered (answer : Answer)
  | invalid (error : ConfigurationError)
  | faulted (fault : Fault)
  | ledger (l : Ledger)
  | configuration (c : Configuration)
  | awaitable (yes : Bool)
  | text (text : String)

namespace Bucket

/-- Whether calls can be awaited. All can, since none ever suspends. -/
def awaitable (_ : Bucket) : Bool := true

/-- A call's request, with the answers of the rounds in which others worked meanwhile. -/
def request {β : Type} (r : Request) (rounds : List (Activity β)) : Activity (Reply × List β) := fun b =>
  let out := b.performAmong r.operation rounds
  match out.answer with
  | (.ok answer, others) => ⟨(.answered answer, others), out.bucket, out.events⟩
  | (.error fault, others) => ⟨(.faulted fault, others), out.bucket, out.events⟩

/-- An action while others work on the bucket. Only calls take attempts that others can come
between. -/
def actAmong {β : Type} (action : Action) (rounds : List (Activity β)) : Activity (Reply × List β) :=
  fun b =>
  match action with
  | .call r => b.request r rounds
  | .replace limits =>
    match Configuration.build limits with
    | .error e => ⟨(.invalid e, []), b, []⟩
    | .ok c => b.request (.replace c) rounds
  | .moveClock m => ⟨(.done, []), { b with clock := b.clock.move m }, []⟩
  | .ledger => ⟨(.ledger b.account.ledger, []), b, []⟩
  | .configuration => ⟨(.configuration b.account.configuration, []), b, []⟩
  | .awaitable => ⟨(.awaitable b.awaitable, []), b, []⟩
  | .describe tall =>
    let layout := b.account.layout
    ⟨(.text (if tall then layout.tall else layout.inline), []), b, []⟩

def act (action : Action) : Activity Reply := fun b =>
  let out := b.actAmong (β := Unit) action []
  ⟨out.answer.1, out.bucket, out.events⟩

def actAll : List Action → Activity (List Reply)
  | [], b => ⟨[], b, []⟩
  | action :: actions, b =>
    let first := b.act action
    let rest := first.bucket.actAll actions
    ⟨first.answer :: rest.answer, rest.bucket, first.events ++ rest.events⟩

end Bucket
end Throttle
