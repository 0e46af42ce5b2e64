import Throttle.Proofs.Rounds
import Throttle.Proofs.Windows
import Throttle.Stream.Playback

/-! What goes through a stream. The items that it takes from its source are, in order, those that it
gives and at most one that it keeps back, and the tokens of each are charged once: when it is given
or, if it has to wait for them, before. A charge is taken from every slot of the bucket, in full where
its balance reaches down that far. -/

namespace Throttle

/-- The call finds this account, refills it to its reading and takes from every slot what it is
granted. That is exact where no slot falls below the least balance, and nowhere else. -/
def Commit.Debits (x : Commit) (found : Account) : Prop :=
  ∃ work, found.refill x.reading = .ok work ∧ work.Debited x.charged x.edition.account ∧
    (work.Charged x.charged x.edition.account ↔
      ∀ i l s, work.At i l s → -2 ^ 63 ≤ s.tokens.toInt - x.charged)

theorem Edition.Chain.debits {e e' found : Edition} {log : List Commit} {x : Commit} {i : Nat}
    (h : e.Chain log e') (hfound : (e :: log.map Commit.edition)[i]? = some found)
    (hx : log[i]? = some x) (charged : 0 < x.charged) : x.Debits found.account := by
  induction h generalizing i with
  | nil => cases hx
  | cons commits _ _ ih =>
    cases i with
    | zero =>
      cases hfound
      cases hx
      obtain ⟨work, refilled, debited⟩ := commits.debited charged
      exact ⟨work, refilled, debited, debited.exact_iff⟩
    | succ i => exact ih hfound hx

end Throttle

namespace Throttle.Stream

variable {σ α τ : Type}

namespace Hold

def items : Hold α → List α
  | .nothing => []
  | .unpaid item | .paid item => [item]

def paidItems : Hold α → List α
  | .paid item => [item]
  | _ => []

end Hold

namespace Deed

def taken? : Deed α → Option α
  | .asked _ _ _ (.item item) => some item
  | _ => none

def given? : Deed α → Option α
  | .answered (.ok (.item item)) => some item
  | _ => none

def question? : Deed α → Option (Nat × Polled α)
  | .asked now _ _ answer => some (now, answer)
  | _ => none

def request? : Deed α → Option Request
  | .reserved n (.ok .ready) | .reserved n (.ok (.later _)) => some (.reserve n .infinite)
  | .added n => some (.add n)
  | _ => none

def isReservation : Deed α → Bool
  | .reserved .. => true
  | _ => false

/-- Anything but asking the source and failing. -/
def isPlain : Deed α → Bool
  | .asked .. | .answered (.error _) => false
  | _ => true

/-- What neither moves an item nor asks or pays for one. -/
def isQuiet : Deed α → Bool
  | .reported _ | .reserved _ (.ok .never) | .answered (.ok .pending) => true
  | _ => false

theorem none_of_isQuiet {deed : Deed α} (h : deed.isQuiet = true) :
    deed.taken? = none ∧ deed.given? = none ∧ deed.question? = none ∧ deed.request? = none := by
  unfold isQuiet at h
  split at h
  · exact ⟨rfl, rfl, rfl, rfl⟩
  · exact ⟨rfl, rfl, rfl, rfl⟩
  · exact ⟨rfl, rfl, rfl, rfl⟩
  · cases h

def isWarning : Deed α → Bool
  | .reported (.held _) => true
  | _ => false

end Deed

/-- Asked at these instants one after another, the source gives these answers. -/
inductive Source.Answers (source : Source σ α) : σ → List (Nat × Polled α) → σ → Prop
  | nil (state : σ) : Answers source state [] state
  | cons {state state' state'' : σ} {now : Nat} {answer : Polled α} {rest : List (Nat × Polled α)}
      (polled : source.poll now state = (answer, state'))
      (answers : Answers source state' rest state'') :
      Answers source state ((now, answer) :: rest) state''

theorem Source.Answers.append {source : Source σ α} {s s' s'' : σ}
    {asked asked' : List (Nat × Polled α)}
    (h : source.Answers s asked s') (h' : source.Answers s' asked' s'') :
    source.Answers s (asked ++ asked') s'' := by
  induction h with
  | nil => exact h'
  | cons polled _ ih => exact .cons polled (ih h')

/-- What an item has to pay: its weight, as far as a balance counts. -/
def price (weight : α → Amount) (item : α) : Int := min (weight item).val.toNat (2 ^ 63 - 1)

theorem price_eq (weight : α → Amount) (item : α) :
    price weight item = (weight item).balance.toInt := (weight item).toInt_balance.symm

structure Charges (weight : α → Amount) (w : Weighted σ α) (deeds : List (Deed α)) (w' : Weighted σ α)
    (log : List Commit) : Prop where
  chain : w.bucket.published.Chain log w'.bucket.published
  requests : log.map Commit.request = deeds.filterMap Deed.request?
  /-- The charges are those of the items that are given or kept back paid. -/
  items : w.hold.paidItems.map (price weight) ++ (log.map Commit.charged).filter (0 < ·) =
    (deeds.filterMap Deed.given? ++ w'.hold.paidItems).map (price weight)
  debits : ∀ (i : Nat) (found : Edition) (x : Commit),
    (w.bucket.published :: log.map Commit.edition)[i]? = some found → log[i]? = some x →
      0 < x.charged → x.Debits found.account

/-- What goes through a stream while it does these. -/
structure Flows (source : Source σ α) (weight : α → Amount) (w : Weighted σ α) (deeds : List (Deed α))
    (w' : Weighted σ α) : Prop where
  /-- What is taken is given in its order, or kept back. -/
  order : w.hold.items ++ deeds.filterMap Deed.taken? = deeds.filterMap Deed.given? ++ w'.hold.items
  /-- What is taken is what the source had. -/
  asks : source.Answers w.source (deeds.filterMap Deed.question?) w'.source
  charges : ∃ log, Charges weight w deeds w' log

section

variable {source : Source σ α} {weight : α → Amount} {w w' w'' : Weighted σ α}
  {deeds deeds' : List (Deed α)} {log log' : List Commit}

namespace Charges

theorem of_chain (chain : w.bucket.published.Chain log w'.bucket.published)
    (requests : log.map Commit.request = deeds.filterMap Deed.request?)
    (items : w.hold.paidItems.map (price weight) ++ (log.map Commit.charged).filter (0 < ·) =
      (deeds.filterMap Deed.given? ++ w'.hold.paidItems).map (price weight)) :
    Charges weight w deeds w' log :=
  ⟨chain, requests, items, fun _ _ _ => chain.debits⟩

theorem trans (h : Charges weight w deeds w' log) (h' : Charges weight w' deeds' w'' log') :
    Charges weight w (deeds ++ deeds') w'' (log ++ log') := by
  refine .of_chain (h.chain.append h'.chain) ?_ ?_
  · rw [List.map_append, List.filterMap_append, h.requests, h'.requests]
  · rw [List.map_append, List.filter_append, ← List.append_assoc, h.items, List.map_append,
      List.append_assoc, h'.items, List.filterMap_append, List.map_append, List.map_append,
      List.map_append, List.append_assoc]

end Charges

namespace Flows

theorem trans (h : Flows source weight w deeds w') (h' : Flows source weight w' deeds' w'') :
    Flows source weight w (deeds ++ deeds') w'' := by
  obtain ⟨log, charges⟩ := h.charges
  obtain ⟨log', charges'⟩ := h'.charges
  refine ⟨?_, ?_, log ++ log', charges.trans charges'⟩
  · rw [List.filterMap_append, List.filterMap_append, ← List.append_assoc, h.order, List.append_assoc,
      h'.order, List.append_assoc]
  · rw [List.filterMap_append]
    exact h.asks.append h'.asks

variable {timer : Timer} {now : Nat} {item : α} {state : σ} {b b' : Bucket} {d d' : Option Nat}

theorem idle (published : b.published = w.bucket.published)
    (quiet : deeds.all Deed.isQuiet = true) : Flows source weight w deeds ⟨w.source, b, d, w.hold⟩ := by
  have vanish : ∀ {β : Type} {f : Deed α → Option β},
      (∀ deed, deed.isQuiet = true → f deed = none) → deeds.filterMap f = [] := fun hf =>
    List.filterMap_eq_nil_iff.mpr fun deed hdeed => hf deed (List.all_eq_true.mp quiet deed hdeed)
  have taken := vanish fun _ h => (Deed.none_of_isQuiet h).1
  have given := vanish fun _ h => (Deed.none_of_isQuiet h).2.1
  have questions := vanish fun _ h => (Deed.none_of_isQuiet h).2.2.1
  have requests := vanish fun _ h => (Deed.none_of_isQuiet h).2.2.2
  refine ⟨?_, ?_, [], .of_chain ?_ requests.symm ?_⟩
  · rw [taken, given, List.append_nil, List.nil_append]
  · rw [questions]
    exact .nil _
  · rw [published]
    exact .nil _
  · rw [given]
    exact List.append_nil _

theorem fetch {fresh : Bool} (h : Fetches source timer now w item fresh state deeds) :
    Flows source weight w deeds ⟨state, w.bucket, w.delay, .unpaid item⟩ := by
  obtain ⟨state₀, bucket, delay, hold⟩ := w
  cases h with
  | held _ hold =>
    cases hold
    exact idle rfl rfl
  | fresh _ _ hold polled =>
    cases hold
    exact ⟨rfl, .cons polled (.nil _), [], .of_chain (.nil _) rfl rfl⟩

theorem pay {supplied : Supply} {events : List Event}
    (supply_eq : supply (weight item) b = ⟨.ok supplied, b', events⟩) (ever : supplied ≠ .never)
    (d' : Option Nat) : Flows source weight ⟨state, b, d, .unpaid item⟩
      (.reserved (weight item) (.ok supplied) :: events.map .reported) ⟨state, b', d', .paid item⟩ := by
  -- Whether or not there is a wait, the one call of the log is granted what the item weighs.
  have charges : ∀ d : Nanos, ¬d.isInfinite → ∀ a,
      b.account.Commits (.reserve (weight item) .infinite) b.clock.now (.wait d) a →
      ∃ log, b.published.Chain log (b.published.succ a) ∧
        log.map Commit.request = [.reserve (weight item) .infinite] ∧
        (log.map Commit.charged).filter (0 < ·) = [price weight item] := by
    intro d ends a commits
    have hcharged : (Request.reserve (weight item) .infinite).charged (.wait d) =
        (weight item).balance.toInt := if_neg ends
    refine ⟨[⟨0, _, _, _, b.published.succ a⟩], .cons commits rfl (.nil _), rfl, ?_⟩
    simp [Commit.charged, hcharged, price_eq, (weight item).balance_pos]
  cases supplies_of_eq supply_eq with
  | refused => exact absurd rfl ever
  | ready a commits =>
    obtain ⟨log, chain, requests, charged⟩ := charges .zero (by decide) a commits
    exact ⟨rfl, .nil _, log, .of_chain chain requests charged⟩
  | later d a _ ends commits =>
    obtain ⟨log, chain, requests, charged⟩ := charges d ends a commits
    exact ⟨rfl, .nil _, log, .of_chain chain requests charged⟩

theorem give : Flows source weight ⟨state, b, d, .paid item⟩ [.answered (.ok (.item item))]
    ⟨state, b, d', .nothing⟩ :=
  ⟨rfl, .nil _, [], .of_chain (.nil _) rfl rfl⟩

theorem refuse {n : Amount} {shown : Option Amount} {fresh : Bool} :
    Flows source weight ⟨state, b, d, .unpaid item⟩
      ((.reserved n (.ok .never) :: if fresh then [.reported (.held shown)] else []) ++
        [.answered (.ok .pending)])
      ⟨state, b, d', .unpaid item⟩ := by
  cases fresh <;> exact idle rfl rfl

theorem ask {answer : Polled α} (hold : w.hold = .nothing)
    (polled : source.poll now w.source = (answer, state)) (none : ∀ item, answer ≠ .item item) :
    Flows source weight w [.asked now .nothing w.delay answer, .answered (.ok answer)]
      ⟨state, w.bucket, d, .nothing⟩ := by
  cases answer with
  | item item => exact absurd rfl (none item)
  | ended | pending =>
    refine ⟨?_, .cons polled (.nil _), [], .of_chain (.nil _) rfl ?_⟩ <;> rw [hold] <;> rfl

theorem add {n : Amount} : Flows source weight w [.added n]
    { w with bucket := (w.bucket.perform (Operation.add n)).bucket } := by
  obtain ⟨work, refilled, -, hperform⟩ := w.bucket.perform_ok (Operation.add n)
  rw [hperform]
  let x : Commit :=
    ⟨0, .add n, w.bucket.clock.now, .added, w.bucket.published.succ (work.add n.balance)⟩
  have chain : w.bucket.published.Chain [x] x.edition :=
    .cons (.intro work refilled rfl rfl) rfl (.nil _)
  exact ⟨List.append_nil _, .nil _, [x], .of_chain chain rfl (List.append_nil _)⟩

end Flows

end

variable {source : Source σ α} {weight : α → Amount} {timer : Timer} {now : Nat} {w : Weighted σ α}

theorem Rounds.flows {r : Round (Weighted σ α) α} (h : Rounds source weight timer now w r) :
    Flows source weight w (r.settle.deeds ++ [.answered r.settle.answer]) r.settle.stream := by
  cases h with
  | waits => exact .idle rfl rfl
  | released item _ hold =>
    obtain ⟨state, bucket, delay, _⟩ := w
    cases hold
    exact .give
  | unfilled answer state delay _ hold polled none => exact .ask hold polled none
  | refused _ _ _ _ _ fetches =>
    rw [Round.settle, List.append_assoc]
    exact (Flows.fetch fetches).trans .refuse
  | given _ _ _ _ _ _ _ fetches supply_eq ever =>
    rw [Round.settle, List.append_assoc]
    exact (Flows.fetch fetches).trans ((Flows.pay supply_eq ever none).trans .give)
  | kept _ _ _ _ nanos _ _ fetches supply_eq =>
    rw [Round.settle, List.append_assoc]
    exact (Flows.fetch fetches).trans
      ((Flows.pay supply_eq (by simp) (some (now + nanos))).trans (.idle rfl rfl))

structure Proper (timer : Timer) (deeds : List (Deed α)) : Prop where
  /-- The source is asked only when nothing is kept back and no delay is on. -/
  patient : ∀ now hold delay answer, .asked now hold delay answer ∈ deeds →
    hold = .nothing ∧ ∀ deadline ∈ delay, timer.due deadline now = true
  once : deeds.countP Deed.isReservation ≤ 1
  /-- The end of the source costs nothing. -/
  ended : .answered (.ok .ended) ∈ deeds → deeds.countP Deed.isReservation = 0
  /-- There is no warning but of an item that has just come in, so none of one that is tried again. -/
  warned : deeds.countP Deed.isWarning ≤ (deeds.filterMap Deed.taken?).length
  taken : (deeds.filterMap Deed.taken?).length ≤ 1
  sound : ∀ fault, .answered (.error fault) ∉ deeds

/-- What a round does once it has asked, where it may warn of an item that has just come in. -/
structure Attempts (fresh : Bool) (deeds : List (Deed α)) : Prop where
  plain : ∀ deed ∈ deeds, deed.isPlain
  once : deeds.countP Deed.isReservation ≤ 1
  ended : .answered (.ok .ended) ∈ deeds → deeds.countP Deed.isReservation = 0
  warned : deeds.countP Deed.isWarning ≤ fresh.toNat

namespace Attempts

variable {fresh : Bool} {deeds : List (Deed α)}

theorem not_asked (h : Attempts fresh deeds) (now : Nat) (hold : Hold α) (delay : Option Nat)
    (answer : Polled α) : .asked now hold delay answer ∉ deeds := fun hd => by cases h.plain _ hd

theorem sound (h : Attempts fresh deeds) (fault : Fault) : .answered (.error fault) ∉ deeds :=
  fun hd => by cases h.plain _ hd

theorem taken (h : Attempts fresh deeds) : deeds.filterMap Deed.taken? = [] := by
  rw [List.filterMap_eq_nil_iff]
  intro deed hdeed
  cases deed with
  | asked => exact absurd hdeed (h.not_asked _ _ _ _)
  | _ => rfl

theorem proper (h : Attempts false deeds) : Proper timer deeds where
  patient _ _ _ _ hd := absurd hd (h.not_asked _ _ _ _)
  once := h.once
  ended := h.ended
  warned := h.warned.trans (Nat.zero_le _)
  taken := by rw [h.taken]; exact Nat.zero_le 1
  sound := h.sound

theorem asked_proper {answer : Polled α} {delay : Option Nat} (h : Attempts fresh deeds)
    (elapsed : timer.running now delay = false) (came : fresh = true → ∃ item, answer = .item item) :
    Proper timer (.asked now .nothing delay answer :: deeds) := by
  refine ⟨?_, h.once, ?_, ?_, ?_, ?_⟩
  · intro now' hold delay' answer' hd
    rcases List.mem_cons.mp hd with hd | hd
    · cases hd
      exact ⟨rfl, fun _ hdue => Timer.due_of_elapsed elapsed hdue⟩
    · exact absurd hd (h.not_asked _ _ _ _)
  · intro hd
    rcases List.mem_cons.mp hd with hd | hd
    · cases hd
    · exact h.ended hd
  · refine h.warned.trans ?_
    cases fresh with
    | false => exact Nat.zero_le _
    | true =>
      obtain ⟨item, rfl⟩ := came rfl
      exact Nat.succ_le_succ (Nat.zero_le _)
  · rw [List.filterMap_cons, h.taken]
    split
    · exact Nat.zero_le 1
    · exact le_rfl
  · intro fault hd
    rcases List.mem_cons.mp hd with hd | hd
    · cases hd
    · exact h.sound fault hd

theorem fetched {item : α} {state : σ} {asked : List (Deed α)}
    (fetches : Fetches source timer now w item fresh state asked) (h : Attempts fresh deeds) :
    Proper timer (asked ++ deeds) := by
  cases fetches with
  | held => exact h.proper
  | fresh _ elapsed => exact h.asked_proper elapsed fun _ => ⟨item, rfl⟩

theorem nil : Attempts false ([] : List (Deed α)) :=
  ⟨by simp, Nat.zero_le 1, fun _ => rfl, le_rfl⟩

theorem added (n : Amount) : Attempts false [(.added n : Deed α)] :=
  ⟨by simp [Deed.isPlain], Nat.zero_le 1, fun _ => rfl, le_rfl⟩

theorem answer (a : Polled α) : Attempts false [.answered (.ok a)] where
  plain := by simp [Deed.isPlain]
  once := Nat.zero_le 1
  ended _ := rfl
  warned := le_rfl

theorem refuse (n : Amount) (shown : Option Amount) (fresh : Bool) :
    Attempts fresh ((.reserved n (.ok .never) :: if fresh then [.reported (.held shown)] else []) ++
      [.answered (.ok (.pending : Polled α))]) where
  plain := by cases fresh <;> simp [Deed.isPlain]
  once := by cases fresh <;> exact le_rfl
  ended := by cases fresh <;> simp
  warned := by cases fresh <;> exact le_rfl

theorem reserve {n : Amount} {b b' : Bucket} {supplied : Supply} {events : List Event} {a : Polled α}
    (supply_eq : supply n b = ⟨.ok supplied, b', events⟩) (goes : a ≠ .ended) :
    Attempts fresh ((.reserved n (.ok supplied) :: events.map .reported) ++ [.answered (.ok a)]) := by
  have hended : Deed.answered (.ok .ended) ≠ .answered (.ok a) := fun h => by cases h; exact goes rfl
  cases supplies_of_eq supply_eq with
  | refused | ready | later =>
    exact ⟨by simp [Deed.isPlain], le_rfl, by simp [hended], Nat.zero_le _⟩

end Attempts

theorem Rounds.proper {r : Round (Weighted σ α) α} (h : Rounds source weight timer now w r) :
    Proper timer (r.settle.deeds ++ [.answered r.settle.answer]) := by
  cases h with
  | waits | released => exact (Attempts.answer _).proper
  | unfilled _ _ _ elapsed => exact (Attempts.answer _).asked_proper elapsed (by simp)
  | refused _ _ _ _ _ fetches =>
    rw [Round.settle, List.append_assoc]
    exact (Attempts.refuse ..).fetched fetches
  | given item _ _ _ _ _ _ fetches supply_eq =>
    rw [Round.settle, List.append_assoc]
    exact (Attempts.reserve (a := .item item) supply_eq (by simp)).fetched fetches
  | kept _ _ _ _ _ _ _ fetches supply_eq =>
    rw [Round.settle, List.append_assoc]
    exact (Attempts.reserve (a := .pending) supply_eq (by simp)).fetched fetches

inductive Prompt where
  /-- It is polled at this instant. -/
  | poll (now : Nat)
  /-- Its bucket is given tokens. -/
  | add (n : Amount)
  /-- The clock of its bucket comes to show this. -/
  | clock (c : Clock)

/-- A kind of stream on a bucket: how its states are seen, and the rounds of its polls. -/
structure Limiter (σ α τ : Type) where
  source : Source σ α
  weight : α → Amount
  timer : Timer
  view : τ → Weighted σ α
  withBucket : Bucket → τ → τ
  loop : (now : Nat) → Loop τ α
  view_withBucket : ∀ b p, view (withBucket b p) = { view p with bucket := b }
  rounds : ∀ now p, Rounds source weight timer now (view p) (((loop now).round p).map view)

def Paced.limiter (source : Source σ α) (timer : Timer) : Limiter σ α (Paced σ α) where
  source := source
  weight _ := .one
  timer := timer
  view := toWeighted
  withBucket b p := { p with bucket := b }
  loop now := Paced.loop source timer now
  view_withBucket _ _ := rfl
  rounds _ p := p.rounds

def Weighted.limiter (source : Source σ α) (weight : α → Amount) (timer : Timer) :
    Limiter σ α (Weighted σ α) where
  source := source
  weight := weight
  timer := timer
  view := id
  withBucket b w := { w with bucket := b }
  loop now := Weighted.loop source weight timer now
  view_withBucket _ _ := rfl
  rounds _ w := w.rounds

namespace Limiter

def heed (l : Limiter σ α τ) (p : τ) : Prompt → τ × List (Deed α)
  | .poll now =>
    let out := (l.loop now).poll p
    (out.stream, out.deeds ++ [.answered out.answer])
  | .add n => (l.withBucket ((l.view p).bucket.perform (Operation.add n)).bucket p, [.added n])
  | .clock c => (l.withBucket { (l.view p).bucket with clock := c } p, [])

def run (l : Limiter σ α τ) (p : τ) : List Prompt → τ × List (List (Deed α))
  | [] => (p, [])
  | prompt :: prompts =>
    let (p', deeds) := l.heed p prompt
    let (p'', history) := l.run p' prompts
    (p'', deeds :: history)

theorem heed_flows (l : Limiter σ α τ) (p : τ) (prompt : Prompt) :
    Flows l.source l.weight (l.view p) (l.heed p prompt).2 (l.view (l.heed p prompt).1) := by
  cases prompt with
  | poll now =>
    rw [heed, Loop.poll_eq]
    exact (l.rounds now p).flows
  | add n =>
    rw [heed, l.view_withBucket]
    exact .add
  | clock c =>
    rw [heed, l.view_withBucket]
    exact .idle rfl rfl

theorem heed_proper (l : Limiter σ α τ) (p : τ) (prompt : Prompt) :
    Proper l.timer (l.heed p prompt).2 := by
  cases prompt with
  | poll now =>
    rw [heed, Loop.poll_eq]
    exact (l.rounds now p).proper
  | add n => exact (Attempts.added n).proper
  | clock c => exact Attempts.nil.proper

/-- Over all prompts every item goes through once and in its place, and at each of them the stream
does what it may. -/
structure Faithful (l : Limiter σ α τ) (p : τ) (prompts : List Prompt) : Prop where
  flows : Flows l.source l.weight (l.view p) (l.run p prompts).2.flatten (l.view (l.run p prompts).1)
  proper : ∀ deeds ∈ (l.run p prompts).2, Proper l.timer deeds

theorem faithful (l : Limiter σ α τ) (p : τ) (prompts : List Prompt) : l.Faithful p prompts := by
  induction prompts generalizing p with
  | nil => exact ⟨.idle rfl rfl, by simp [run]⟩
  | cons prompt prompts ih =>
    have hrest := ih (l.heed p prompt).1
    exact ⟨(l.heed_flows p prompt).trans hrest.flows,
      List.forall_mem_cons.mpr ⟨l.heed_proper p prompt, hrest.proper⟩⟩

end Limiter

/-- Exactly once and in order, for streams that give first and for streams that wait first, over any
source, weight and bucket, and for any prompts at any instants. Each item is charged by one call, which
takes its weight from every slot, in full where no balance would have to go below the least. What the
loops come to is what the polls are, and a new stream keeps nothing back. -/
theorem delivers_exactly_once (source : Source σ α) (weight : α → Amount) (timer : Timer) :
    (∀ now (p : Paced σ α),
      ((Paced.loop source timer now).poll p).polling = p.poll source timer now) ∧
    (∀ now (w : Weighted σ α),
      ((Weighted.loop source weight timer now).poll w).polling = w.poll source weight timer now) ∧
    (∀ (p : Paced σ α) (prompts : List Prompt), (Paced.limiter source timer).Faithful p prompts) ∧
    ∀ (w : Weighted σ α) (prompts : List Prompt),
      (Weighted.limiter source weight timer).Faithful w prompts :=
  ⟨fun _ p => p.loop_poll, fun _ w => w.loop_poll, (Paced.limiter source timer).faithful,
    (Weighted.limiter source weight timer).faithful⟩

/-- Two items, each as heavy as a balance can count, on a bucket that gets more than that back in every
nanosecond. -/
def cargo : Weighted (Arrivals UInt64) UInt64 where
  source := { upcoming := [(0, 9223372036854775807), (0, 9223372036854775807)] }
  bucket := Bucket.flooded

theorem cargo_run : ∃ w' history,
    (Weighted.limiter Arrivals.source itemWeight .milliseconds).run cargo
      ([0, 1000000, 1000000, 2000000].map .poll) = (w', history) ∧
    history.flatten.filterMap Deed.given? = [9223372036854775807, 9223372036854775807] ∧
    w'.hold = .nothing := by
  refine ⟨_, _, Prod.mk.eta.symm, ?_, ?_⟩
  · simp only [List.map, Limiter.run, Limiter.heed, Loop.poll_eq]
    decide +kernel
  · simp only [List.map, Limiter.run, Limiter.heed, Loop.poll_eq]
    decide +kernel

/-- While the clock stands, the slots do not lose what the items weigh: the first one leaves as deep a
debt as a balance can hold but for a single token, and that token is all that the second one takes. -/
theorem gives_for_less :
    ¬∀ (w w' : Weighted (Arrivals UInt64) UInt64) (polls : List Nat)
      (history : List (List (Deed UInt64))), w.bucket.Reachable → w.hold = .nothing →
      w.bucket.account.refill w.bucket.clock.now = .ok w.bucket.account →
      (Weighted.limiter Arrivals.source itemWeight .milliseconds).run w (polls.map .poll) =
        (w', history) → w'.hold = .nothing →
      w.bucket.account.Charged ((history.flatten.filterMap Deed.given?).map (price itemWeight)).sum
        w'.bucket.account := by
  intro h
  obtain ⟨w', history, run, given, hold⟩ := cargo_run
  have charged := h cargo w' _ history (.new ..) rfl Bucket.flooded_refill run hold
  rw [given] at charged
  obtain ⟨s', -, tokens, -⟩ := charged.slots 0 Bucket.flood _ ⟨rfl, rfl⟩
  have := s'.tokens.le_toInt
  rw [tokens] at this
  exact absurd this (by decide +kernel)

end Throttle.Stream
