import Throttle.Proofs.Accruals
import Throttle.Proofs.Refusals
import Throttle.Proofs.Schedules
import Throttle.Proofs.ZeroWait

/-! Buckets of several limits, limit by limit. What a call that is granted does to one slot it does to
all of them, and a slot takes it in by its own limit only. So the ledger consists of the slots that the
limits would come to each alone, and what couples them is the decision of a call, which goes by the
least balance and the longest delay among them. -/

namespace Throttle

inductive Effect where
  | charge (n : Balance)
  | give (n : Balance)
deriving DecidableEq

structure Posting where
  reading : UInt64
  effect : Effect
deriving DecidableEq

namespace Slot

def affected (s : Slot) (b : Bandwidth) : Effect → Slot
  | .charge n => s.consume n
  | .give n => s.add b n

def posted (b : Bandwidth) (s : Slot) (p : Posting) : Slot := (s.refilled b p.reading).affected b p.effect

end Slot

namespace Ledger

def affected (l : Ledger) (bs : List Bandwidth) : Effect → Ledger
  | .charge n => l.consume n
  | .give n => l.add bs n

def post (bs : List Bandwidth) (l : Ledger) (p : Posting) : Except (Interrupted Ledger) Ledger :=
  (l.refill bs p.reading).map (·.affected bs p.effect)

/-- What one limit comes to alone, when these postings are made to a new ledger of its own. -/
def alone (b : Bandwidth) (start : UInt64) (ps : List Posting) : Except (Interrupted Ledger) Ledger :=
  ps.foldlM (post [b]) (new [b] start)

variable {b : Bandwidth} {s : Slot}

theorem post_single (hb : b.period ≠ 0) (s : Slot) (p : Posting) :
    post [b] ⟨[s]⟩ p = .ok ⟨[s.posted b p]⟩ := by
  have hrefill : refill ⟨[s]⟩ [b] p.reading = .ok ⟨[s.refilled b p.reading]⟩ :=
    refill_eq (by simpa using hb) _ _
  rw [post, hrefill, Slot.posted]
  cases p.effect with
  | charge n => rfl
  | give n => rfl

theorem alone_eq (hb : b.period ≠ 0) (start : UInt64) (ps : List Posting) :
    alone b start ps = .ok ⟨[ps.foldl (Slot.posted b) (Slot.new b start)]⟩ := by
  have hall : ∀ s, ps.foldlM (post [b]) ⟨[s]⟩ = .ok ⟨[ps.foldl (Slot.posted b) s]⟩ := by
    induction ps with
    | nil => intro s; rfl
    | cons p ps ih =>
      intro s
      rw [List.foldlM_cons, post_single hb]
      exact ih (s.posted b p)
  exact hall (Slot.new b start)

theorem onSlots_map (g : Slot → Bandwidth → Slot) (f : Bandwidth → Slot) (bs : List Bandwidth) :
    onSlots g (bs.map f) bs = bs.map fun b => g (f b) b := by
  induction bs with
  | nil => rfl
  | cons b bs ih => rw [List.map_cons, onSlots, ih, List.map_cons]

end Ledger

namespace Account

def affected (a : Account) (e : Effect) : Account :=
  { a with ledger := a.ledger.affected a.configuration.bandwidths e }

/-- The account of these limits in which each slot is determined by its limit. -/
def each (c : Configuration) (f : Bandwidth → Slot) : Account := ⟨c, ⟨c.bandwidths.map f⟩⟩

variable {c c' : Configuration} {f : Bandwidth → Slot}

theorem each_at {i : Nat} {b : Bandwidth} {s : Slot} :
    (each c f).At i b s ↔ c.bandwidths[i]? = some b ∧ s = f b := by
  constructor
  · rintro ⟨hb, hs⟩
    change c.bandwidths[i]? = some b at hb
    simp only [each, List.getElem?_map, hb, Option.map_some, Option.some.injEq] at hs
    exact ⟨hb, hs.symm⟩
  · rintro ⟨hb, rfl⟩
    exact ⟨hb, by simp [each, hb]⟩

theorem each_paired (c : Configuration) (f : Bandwidth → Slot) : (each c f).Paired := by
  simp [Paired, each]

theorem refill_each (c : Configuration) (f : Bandwidth → Slot) (t : UInt64) :
    (each c f).refill t = .ok (each c fun b => (f b).refilled b t) := by
  have moves : ∀ b ∈ c.bandwidths, b.period ≠ 0 := fun b hb => (c.valid b hb).1
  simp only [refill, each, Ledger.refill_eq moves, Ledger.refilled, Ledger.onSlots_map]

theorem affected_each (c : Configuration) (f : Bandwidth → Slot) (e : Effect) :
    (each c f).affected e = each c fun b => (f b).affected b e := by
  cases e with
  | charge n => simp [affected, each, Ledger.affected, Ledger.consume, Slot.affected]
  | give n => simp [affected, each, Ledger.affected, Ledger.add, Ledger.addSlots_eq, Ledger.onSlots_map,
      Slot.affected]

/-- What each limit of an account is with its slot as an account of its own. -/
def parts (a : Account) : Set Account :=
  {p | ∃ i b s, ∃ valid : b.Valid, a.At i b s ∧ p = ⟨.single b valid, ⟨[s]⟩⟩}

variable {a : Account}

theorem isLeast_available_parts (hp : a.Paired) :
    IsLeast ((fun p => p.available.toInt) '' a.parts) a.available.toInt := by
  constructor
  · obtain ⟨i, b, s, hat, htokens⟩ := exists_available hp
    exact ⟨_, ⟨i, b, s, hat.valid, hat, rfl⟩, congrArg Int64.toInt htokens⟩
  · rintro - ⟨-, ⟨i, b, s, valid, hat, rfl⟩, rfl⟩
    exact available_le hp hat

theorem exists_delay (hp : a.Paired) (n : Balance) :
    ∃ i b s, a.At i b s ∧ s.delay b n = a.delay n := by
  have hne : List.zipWith (fun s b => Slot.delay s b n) a.ledger.slots a.configuration.bandwidths ≠ [] := by
    rw [ne_eq, List.zipWith_eq_nil_iff, not_or]
    exact ⟨hp.slots_ne_nil, a.configuration.nonempty⟩
  obtain ⟨d, hd⟩ := Option.isSome_iff_exists.mp (List.isSome_max?_of_ne_nil hne)
  have hlongest : a.delay n = d := by rw [delay, Ledger.delay, hd, Option.getD_some]
  have hmem := List.max?_mem hd
  rw [← List.map_uncurry_zip_eq_zipWith] at hmem
  obtain ⟨p, hp, rfl⟩ := List.mem_map.mp hmem
  obtain ⟨i, hat⟩ := mem_zip_iff.mp hp
  exact ⟨i, p.2, p.1, hat, hlongest.symm⟩

theorem isGreatest_delay_parts (hp : a.Paired) (n : Balance) :
    IsGreatest ((fun p => p.delay n) '' a.parts) (a.delay n) := by
  constructor
  · obtain ⟨i, b, s, hat, hdelay⟩ := exists_delay hp n
    exact ⟨_, ⟨i, b, s, hat.valid, hat, rfl⟩, hdelay⟩
  · rintro - ⟨-, ⟨i, b, s, valid, hat, rfl⟩, rfl⟩
    exact (delay_le_iff a n).mp le_rfl i b s hat

end Account

namespace Request

def isForTokens : Request → Bool
  | .replace _ => false
  | _ => true

/-- What a call takes, by what is available and how long it would have to wait. -/
def charge (r : Request) (available : Int) (delay : Balance → Nanos) : Int :=
  match r with
  | .consume n | .probe n => if n.balance.toInt ≤ available then n.balance.toInt else 0
  | .consumeUpTo n => max 0 (min n.balance.toInt available)
  | .reserve n maxWait =>
    if (delay n.balance).isInfinite ∨ maxWait < delay n.balance then 0 else n.balance.toInt
  | .add _ | .replace _ | .available => 0

theorem charged_eq (r : Request) (a : Account) :
    r.charged (r.operation a).answer = r.charge a.available.toInt a.delay := by
  cases r with
  | consume n =>
    simp only [operation, Operation.consume, Int64.lt_iff_toInt_lt, charge]
    split
    · next short => rw [if_neg (by omega)]; rfl
    · next there => rw [if_pos (by omega)]; rfl
  | consumeUpTo n =>
    have hmin := Balance.toInt_min n.balance a.available
    simp only [operation, Operation.consumeUpTo, Int64.le_iff_toInt_le, Int64.toInt_zero, hmin, charge]
    split
    · next none => rw [max_eq_left none]; rfl
    · next some =>
      rw [max_eq_right (by omega), ← hmin]
      exact Int.toNat_of_nonneg (by omega)
  | probe n =>
    simp only [operation, Operation.probe, Int64.lt_iff_toInt_lt, charge]
    split
    · next short => rw [if_neg (by omega)]; rfl
    · next there => rw [if_pos (by omega)]; rfl
  | reserve n maxWait =>
    simp only [operation, Operation.reserve_eq, charge]
    split
    · rfl
    · next granted =>
      obtain ⟨ends, -⟩ := not_or.mp granted
      exact if_neg ends
  | add n => rfl
  | replace c => rfl
  | available => rfl

/-- What is taken grows with what is available, and shrinks with the delays. -/
theorem charge_mono (r : Request) {available available' : Int} {delay delay' : Balance → Nanos}
    (more : available ≤ available') (sooner : ∀ n, delay' n ≤ delay n) :
    r.charge available delay ≤ r.charge available' delay' := by
  cases r with
  | consume n | probe n =>
    have := n.balance_pos
    simp only [charge]
    split <;> split <;> omega
  | consumeUpTo n =>
    simp only [charge]
    omega
  | reserve n maxWait =>
    have hpos := n.balance_pos
    simp only [charge]
    by_cases granted : (delay n.balance).isInfinite ∨ maxWait < delay n.balance
    · rw [if_pos granted]
      split <;> omega
    · obtain ⟨ends, within⟩ := not_or.mp granted
      have hle := Nanos.le_iff.mp (sooner n.balance)
      have hlt := (delay n.balance).val.toNat_lt
      rw [Nanos.isInfinite_iff] at ends
      rw [Nanos.lt_iff] at within
      rw [if_neg granted, if_neg]
      rw [Nanos.isInfinite_iff, Nanos.lt_iff]
      omega
  | add n | replace c | available => exact le_rfl

/-- Each part would take at least what is taken, and one of them no more. -/
theorem isLeast_charged_parts (r : Request) {a : Account} (hp : a.Paired) :
    IsLeast ((fun p => r.charged (r.operation p).answer) '' a.parts)
      (r.charged (r.operation a).answer) := by
  simp only [charged_eq]
  constructor
  · obtain ⟨p, hpart, havailable⟩ := (Account.isLeast_available_parts hp).1
    dsimp only at havailable
    cases r with
    | reserve n maxWait =>
      obtain ⟨q, hq, hdelay⟩ := (Account.isGreatest_delay_parts hp n.balance).1
      dsimp only at hdelay
      exact ⟨q, hq, by simp only [charge, hdelay]⟩
    | _ => exact ⟨p, hpart, by simp only [charge, havailable]⟩
  · rintro - ⟨p, hpart, rfl⟩
    exact charge_mono r ((Account.isLeast_available_parts hp).2 ⟨p, hpart, rfl⟩)
      fun n => (Account.isGreatest_delay_parts hp n).2 ⟨p, hpart, rfl⟩

def effect? (r : Request) (answer : Answer) : Option Effect :=
  if 0 < r.added then some (.give (Int64.ofInt r.added))
  else if 0 < r.charged answer then some (.charge (Int64.ofInt (r.charged answer)))
  else none

variable {r : Request} {a : Account}

theorem publish_eq (tokens : r.isForTokens) (hp : a.Paired) :
    (r.operation a).publish = (r.effect? (r.operation a).answer).map a.affected := by
  unfold effect?
  cases hpublish : (r.operation a).publish with
  | none =>
    obtain ⟨charged, added⟩ := unpublished hpublish
    rw [charged, added]
    rfl
  | some a' =>
    cases publishes hp hpublish with
    | charge n pos _ charged added =>
      rw [added, charged, if_neg (lt_irrefl 0), if_pos pos, Int64.ofInt_toInt]
      rfl
    | give n request =>
      subst request
      rw [added, if_pos n.balance_pos, Int64.ofInt_toInt]
      rfl
    | replace c request =>
      subst request
      cases tokens

theorem isPassive_iff (tokens : r.isForTokens) (hp : a.Paired) :
    (r.operation a).answer.isPassive ↔ r.charged (r.operation a).answer ≤ 0 ∧ r.added ≤ 0 := by
  rw [← publish_eq_none_iff, publish_eq tokens hp, Option.map_eq_none_iff, effect?]
  split
  · simp only [reduceCtorEq, false_iff]
    omega
  · split
    · simp only [reduceCtorEq, false_iff]
      omega
    · simp only [true_iff]
      omega

/-- A call is granted when each part alone would grant it. -/
theorem granted_iff_parts (tokens : r.isForTokens) (hp : a.Paired) :
    ¬(r.operation a).answer.isPassive ↔ ∀ p ∈ a.parts, ¬(r.operation p).answer.isPassive := by
  have hleast := isLeast_charged_parts r hp
  obtain ⟨p, hpart, hcharged⟩ := hleast.1
  have hlower : ∀ q ∈ a.parts, r.charged (r.operation a).answer ≤ r.charged (r.operation q).answer :=
    fun q hq => hleast.2 ⟨q, hq, rfl⟩
  have hparts : ∀ q ∈ a.parts, q.Paired := by
    rintro - ⟨i, b, s, valid, hat, rfl⟩
    rfl
  constructor
  · intro granted q hq
    have := hlower q hq
    rw [isPassive_iff tokens hp] at granted
    rw [isPassive_iff tokens (hparts q hq)]
    omega
  · intro granted
    have := granted p hpart
    dsimp only at hcharged
    rwa [isPassive_iff tokens (hparts p hpart), hcharged, ← isPassive_iff tokens hp] at this

end Request

namespace Account

structure Combines (a : Account) (ps : Set Account) : Prop where
  available : IsLeast ((fun p => p.available.toInt) '' ps) a.available.toInt
  delay : ∀ n, IsGreatest ((fun p => p.delay n) '' ps) (a.delay n)
  granted : ∀ r : Request, r.isForTokens →
    (¬(r.operation a).answer.isPassive ↔ ∀ p ∈ ps, ¬(r.operation p).answer.isPassive)
  charged : ∀ r : Request, r.isForTokens →
    IsLeast ((fun p => r.charged (r.operation p).answer) '' ps) (r.charged (r.operation a).answer)

theorem combines_parts {a : Account} (hp : a.Paired) : a.Combines a.parts where
  available := isLeast_available_parts hp
  delay := isGreatest_delay_parts hp
  granted := fun _ tokens => Request.granted_iff_parts tokens hp
  charged := fun r _ => r.isLeast_charged_parts hp

/-- The accounts that the limits of `c` come to alone, each with the same postings, at reading `t`. -/
def apart (c : Configuration) (start : UInt64) (ps : List Posting) (t : UInt64) : Set Account :=
  {p | ∃ b ∈ c.bandwidths, ∃ (valid : b.Valid) (ledger : Ledger),
    Ledger.alone b start ps = .ok ledger ∧ refill ⟨.single b valid, ledger⟩ t = .ok p}

theorem parts_each (c : Configuration) (start : UInt64) (ps : List Posting) (t : UInt64) :
    (each c fun b => (ps.foldl (Slot.posted b) (Slot.new b start)).refilled b t).parts =
      apart c start ps t := by
  ext p
  constructor
  · rintro ⟨i, b, s, valid, hat, rfl⟩
    obtain ⟨hb, rfl⟩ := each_at.mp hat
    refine ⟨b, List.mem_of_getElem? hb, valid, _, Ledger.alone_eq valid.1 start ps, ?_⟩
    exact refill_each (.single b valid) (fun b => ps.foldl (Slot.posted b) (Slot.new b start)) t
  · rintro ⟨b, hb, valid, ledger, halone, hp⟩
    obtain ⟨i, hi⟩ := List.mem_iff_getElem?.mp hb
    rw [Ledger.alone_eq valid.1] at halone
    cases halone
    have hsingle := refill_each (.single b valid)
      (fun b => ps.foldl (Slot.posted b) (Slot.new b start)) t
    obtain rfl := Except.ok.inj (hp.symm.trans hsingle)
    exact ⟨i, b, _, valid, each_at.mpr ⟨hi, rfl⟩, rfl⟩

end Account

def Action.isForTokens : Action → Bool
  | .call r => r.isForTokens
  | .moveClock _ => true
  | _ => false

def Deed.posting? (d : Deed) : Option Posting :=
  match d.action, d.outcome.answer with
  | .call r, .answered answer => (r.effect? answer).map (⟨d.outcome.bucket.clock.now, ·⟩)
  | _, _ => none

namespace Bucket

def postings (actions : List Action) (b : Bucket) : List Posting :=
  (b.trace actions).filterMap Deed.posting?

variable {b b' : Bucket} {c c' : Configuration} {f : Bandwidth → Slot} {action : Action}

theorem postings_cons (b : Bucket) (action : Action) (actions : List Action) :
    b.postings (action :: actions) =
      (Deed.posting? ⟨action, b.act action⟩).toList ++ (b.act action).bucket.postings actions := by
  rw [postings, trace, List.filterMap_cons]
  cases Deed.posting? ⟨action, b.act action⟩ <;> rfl

@[simp] theorem settle_clock (b : Bucket) (publish : Option Account) :
    (b.settle publish).clock = b.clock := by
  cases publish <;> rfl

/-- An action posts alike to every slot, each under its own limit. -/
theorem act_each (hb : b.account = .each c f) (tokens : action.isForTokens) :
    (b.act action).bucket.account =
      .each c fun l => (Deed.posting? ⟨action, b.act action⟩).toList.foldl (Slot.posted l) (f l) := by
  cases action with
  | call r =>
    have refilled := Account.refill_each c f b.clock.now
    rw [← hb] at refilled
    rw [act_of_request rfl refilled, Request.publish_eq tokens (Account.each_paired ..)]
    simp only [Deed.posting?, settle_clock]
    cases r.effect? (r.operation (.each c fun l => (f l).refilled l b.clock.now)).answer with
    | none => exact hb
    | some e => exact Account.affected_each c _ e
  | moveClock m => exact hb
  | _ => cases tokens

theorem actAll_each {actions : List Action} (hb : b.account = .each c f)
    (tokens : ∀ x ∈ actions, x.isForTokens) :
    (b.actAll actions).bucket.account =
      .each c fun l => (b.postings actions).foldl (Slot.posted l) (f l) := by
  induction actions generalizing b f with
  | nil => exact hb
  | cons action actions ih =>
    obtain ⟨first, rest⟩ := List.forall_mem_cons.mp tokens
    rw [actAll_cons]
    dsimp only
    rw [ih (act_each hb first) rest, postings_cons]
    simp only [List.foldl_append]

end Bucket

namespace Account

variable {c c' : Configuration}

theorem le_available_each {f : Bandwidth → Slot} {n : Balance} :
    n.toInt ≤ (each c f).available.toInt ↔ ∀ b ∈ c.bandwidths, n.toInt ≤ (f b).tokens.toInt := by
  rw [available, Ledger.le_available_iff (each_paired c f).slots_ne_nil, each, List.forall_mem_map]

theorem delay_each_le {f : Bandwidth → Slot} {n : Balance} {w : Nanos} :
    (each c f).delay n ≤ w ↔ ∀ b ∈ c.bandwidths, (f b).delay b n ≤ w := by
  rw [delay_le_iff]
  constructor
  · intro h b hb
    obtain ⟨i, hi⟩ := List.mem_iff_getElem?.mp hb
    exact h i b (f b) (each_at.mpr ⟨hi, rfl⟩)
  · rintro h i b s hat
    obtain ⟨hb, rfl⟩ := each_at.mp hat
    exact h b (List.mem_of_getElem? hb)

variable (perm : c.bandwidths.Perm c'.bandwidths) (f : Bandwidth → Slot)
include perm

theorem available_each_perm : (each c' f).available = (each c f).available := by
  apply Int64.toInt_inj.mp
  apply le_antisymm
  · exact le_available_each.mpr fun b hb => le_available_each.mp le_rfl b (perm.mem_iff.mp hb)
  · exact le_available_each.mpr fun b hb => le_available_each.mp le_rfl b (perm.mem_iff.mpr hb)

theorem delay_each_perm (n : Balance) : (each c' f).delay n = (each c f).delay n := by
  apply le_antisymm
  · exact delay_each_le.mpr fun b hb => delay_each_le.mp le_rfl b (perm.mem_iff.mpr hb)
  · exact delay_each_le.mpr fun b hb => delay_each_le.mp le_rfl b (perm.mem_iff.mp hb)

end Account

theorem Request.operation_congr {r : Request} {a a' : Account} (tokens : r.isForTokens)
    (available : a'.available = a.available) (delay : ∀ n, a'.delay n = a.delay n) :
    (r.operation a').answer = (r.operation a).answer ∧
      (r.operation a').reports = (r.operation a).reports := by
  cases r with
  | consume n =>
    simp only [operation, Operation.consume, available]
    split <;> exact ⟨rfl, rfl⟩
  | consumeUpTo n =>
    simp only [operation, Operation.consumeUpTo, available]
    split <;> exact ⟨rfl, rfl⟩
  | probe n =>
    simp only [operation, Operation.probe, available, delay]
    split <;> exact ⟨rfl, rfl⟩
  | reserve n maxWait =>
    simp only [operation, Operation.reserve_eq, delay]
    split <;> exact ⟨rfl, rfl⟩
  | add n => exact ⟨rfl, rfl⟩
  | replace c => cases tokens
  | available => exact ⟨congrArg Answer.available available, rfl⟩

namespace Bucket

variable {b b' : Bucket} {c c' : Configuration} {f : Bandwidth → Slot}
  (perm : c.bandwidths.Perm c'.bandwidths)
include perm

/-- An action comes to the same when the limits stand in another order. -/
theorem act_perm {action : Action} (hb : b.account = .each c f) (hb' : b'.account = .each c' f)
    (clock : b'.clock = b.clock) (tokens : action.isForTokens) :
    (b'.act action).answer = (b.act action).answer ∧ (b'.act action).events = (b.act action).events ∧
      (b'.act action).bucket.clock = (b.act action).bucket.clock := by
  cases action with
  | call r =>
    have refilled : b.account.refill b.clock.now = .ok (.each c fun l => (f l).refilled l b.clock.now) := by
      rw [hb, Account.refill_each]
    have refilled' : b'.account.refill b'.clock.now =
        .ok (.each c' fun l => (f l).refilled l b.clock.now) := by
      rw [hb', clock, Account.refill_each]
    obtain ⟨answer, reports⟩ := Request.operation_congr tokens
      (Account.available_each_perm perm fun l => (f l).refilled l b.clock.now)
      (Account.delay_each_perm perm fun l => (f l).refilled l b.clock.now)
    rw [act_of_request rfl refilled, act_of_request rfl refilled']
    exact ⟨congrArg Reply.answered answer, reports, by rw [settle_clock, settle_clock, clock]⟩
  | moveClock m => exact ⟨rfl, rfl, congrArg (Clock.move m) clock⟩
  | _ => cases tokens

theorem actAll_perm {actions : List Action} (hb : b.account = .each c f) (hb' : b'.account = .each c' f)
    (clock : b'.clock = b.clock) (tokens : ∀ x ∈ actions, x.isForTokens) :
    (b'.actAll actions).answer = (b.actAll actions).answer ∧
      (b'.actAll actions).events = (b.actAll actions).events ∧
      b'.postings actions = b.postings actions := by
  induction actions generalizing b b' f with
  | nil => exact ⟨rfl, rfl, rfl⟩
  | cons action actions ih =>
    obtain ⟨first, rest⟩ := List.forall_mem_cons.mp tokens
    obtain ⟨answer, events, clock'⟩ := act_perm perm hb hb' clock first
    have posting : Deed.posting? ⟨action, b'.act action⟩ = Deed.posting? ⟨action, b.act action⟩ := by
      simp only [Deed.posting?, answer, clock']
    have hnext' := act_each hb' first
    rw [posting] at hnext'
    obtain ⟨answers, later, postings⟩ := ih (act_each hb first) hnext' clock' rest
    refine ⟨?_, ?_, ?_⟩
    · rw [actAll_cons, actAll_cons, answer, answers]
    · rw [actAll_cons, actAll_cons, events, later]
    · rw [postings_cons, postings_cons, posting, postings]

omit perm

/-- The bucket holds what the limits of `c` come to alone, and decides by what they would decide. -/
structure InLockstep (b : Bucket) (c : Configuration) (start : UInt64) (ps : List Posting) : Prop where
  configuration : b.account.configuration = c
  length : b.account.ledger.slots.length = c.bandwidths.length
  slots : ∀ (i : Nat) (l : Bandwidth), c.bandwidths[i]? = some l →
    ∃ s, Ledger.alone l start ps = .ok ⟨[s]⟩ ∧ b.account.ledger.slots[i]? = some s
  /-- What a call finds, and answers by. -/
  calls : ∃ work, b.account.refill b.clock.now = .ok work ∧
    work.Combines (Account.apart c start ps b.clock.now) ∧
    ∀ r : Request, (b.act (.call r)).answer = .answered (r.operation work).answer

theorem inLockstep {start : UInt64} {ps : List Posting}
    (hb : b.account = .each c fun l => ps.foldl (Slot.posted l) (Slot.new l start)) :
    b.InLockstep c start ps where
  configuration := by rw [hb]; rfl
  length := by
    rw [hb]
    exact List.length_map _
  slots := fun i l hl => by
    have valid := c.valid l (List.mem_of_getElem? hl)
    refine ⟨_, Ledger.alone_eq valid.1 start ps, ?_⟩
    rw [hb]
    exact (Account.each_at.mpr ⟨hl, rfl⟩).2
  calls := by
    have refilled := Account.refill_each c (fun l => ps.foldl (Slot.posted l) (Slot.new l start)) b.clock.now
    rw [← hb] at refilled
    refine ⟨_, refilled, ?_, fun r => by rw [act_of_request rfl refilled]⟩
    rw [← Account.parts_each]
    exact Account.combines_parts (Account.each_paired ..)

/-- Wherever a run of calls for tokens has come to, its bucket is the product of buckets of one limit
each, all with the same postings, and the next call goes by the scarcest and the slowest of them. So the
order of the limits makes no difference: in another one every call is answered alike, and each slot goes
where its limit goes. -/
theorem lockstep (s : Strategy) (clock : Clock) (c : Configuration) {actions : List Action}
    (tokens : ∀ x ∈ actions, x.isForTokens) :
    ((new s clock c).actAll actions).bucket.InLockstep c clock.now ((new s clock c).postings actions) ∧
      ∀ c' : Configuration, c.bandwidths.Perm c'.bandwidths →
        ((new s clock c').actAll actions).answer = ((new s clock c).actAll actions).answer ∧
        ((new s clock c').actAll actions).events = ((new s clock c).actAll actions).events ∧
        ∀ i j : Nat, c'.bandwidths[j]? = c.bandwidths[i]? →
          ((new s clock c').actAll actions).bucket.account.ledger.slots[j]? =
            ((new s clock c).actAll actions).bucket.account.ledger.slots[i]? := by
  -- a new ledger is determined limit by limit, in whichever order they stand
  have fresh : ∀ c : Configuration, (new s clock c).account = .each c (Slot.new · clock.now) :=
    fun _ => rfl
  have hall := actAll_each (fresh c) tokens
  refine ⟨inLockstep hall, fun c' perm => ?_⟩
  have hall' := actAll_each (fresh c') tokens
  obtain ⟨answers, events, postings⟩ := actAll_perm perm (fresh c) (fresh c') rfl tokens
  refine ⟨answers, events, fun i j hij => ?_⟩
  rw [hall, hall', postings]
  simp only [Account.each, List.getElem?_map, hij]

def brisk : Bandwidth := .perSecond ⟨40, by decide⟩

def sluggish : Bandwidth := { Bandwidth.perMinute ⟨90, by decide⟩ with initial := some 60 }

def reserves : Bandwidth := .nonRefilling ⟨500, by decide⟩

def threefold : Configuration := ⟨[brisk, sluggish, reserves], by decide, by decide⟩

def rotated : Configuration := ⟨[reserves, brisk, sluggish], by decide, by decide⟩

/-- Of these the probe and the last call are refused, and the addition comes at a reading before that of
the reservation. -/
def errands : List Action :=
  [.call (.consume ⟨29, by decide⟩), .call (.probe ⟨29, by decide⟩), .moveClock (.advance 100000000),
    .call (.reserve ⟨45, by decide⟩ .infinite), .moveClock (.rewind 40000000),
    .call (.add ⟨29, by decide⟩), .call (.consumeUpTo ⟨29, by decide⟩)]

/-- The brisk limit has turned the probe away and the sluggish one has made the reservation wait. In
another order they do the same. -/
theorem lockstep_rotated :
    ((new .atomic (.manual 0) threefold).actAll errands).bucket.InLockstep threefold 0
        [⟨0, .charge 29⟩, ⟨100000000, .charge 45⟩, ⟨60000000, .give 29⟩] ∧
      ((new .atomic (.manual 0) threefold).actAll errands).bucket.account.ledger =
        ⟨[⟨-1, 100000000, 0⟩, ⟨15, 100000000, 9000000000⟩, ⟨455, 100000000, 0⟩]⟩ ∧
      ((new .atomic (.manual 0) rotated).actAll errands).answer =
        ((new .atomic (.manual 0) threefold).actAll errands).answer ∧
      ((new .atomic (.manual 0) rotated).actAll errands).bucket.account.ledger.slots[0]? =
        some ⟨455, 100000000, 0⟩ := by
  have tokens : ∀ x ∈ errands, x.isForTokens := by decide
  have posted : (new .atomic (.manual 0) threefold).postings errands =
      [⟨0, .charge 29⟩, ⟨100000000, .charge 45⟩, ⟨60000000, .give 29⟩] := by decide +kernel
  have ledger : ((new .atomic (.manual 0) threefold).actAll errands).bucket.account.ledger =
      ⟨[⟨-1, 100000000, 0⟩, ⟨15, 100000000, 9000000000⟩, ⟨455, 100000000, 0⟩]⟩ := by decide +kernel
  have perm : threefold.bandwidths.Perm rotated.bandwidths := by decide
  obtain ⟨alone, reordered⟩ := lockstep .atomic (.manual 0) threefold tokens
  obtain ⟨answers, -, slots⟩ := reordered rotated perm
  rw [posted] at alone
  refine ⟨alone, ledger, answers, ?_⟩
  rw [slots 2 0 rfl, ledger]
  rfl

end Bucket
end Throttle
