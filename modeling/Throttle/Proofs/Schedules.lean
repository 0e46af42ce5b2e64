import Mathlib.Algebra.Order.BigOperators.Group.List
import Mathlib.Data.List.Perm.Subperm
import Throttle.Proofs.Linearizability

/-! Schedules at a standing clock. Equal calls are answered and published alike in any order, since
any order of them is the same order. Calls that consume do not leave less behind than their amounts,
so if all amounts are there, each of them finds its own whatever the others took before. -/

namespace Throttle

namespace Edition

/-- The calls, one after another, get these answers and lead from edition `e` to another one. -/
inductive Serially : Edition → List (Request × UInt64) → List Answer → Edition → Prop
  | nil (e : Edition) : Serially e [] [] e
  | cons {e e₁ e' : Edition} {r : Request} {t : UInt64} {answer : Answer}
      {calls : List (Request × UInt64)} {answers : List Answer} (first : e.Serves r t answer e₁)
      (rest : Serially e₁ calls answers e') : Serially e ((r, t) :: calls) (answer :: answers) e'

namespace Serially

variable {e e₁ e₂ : Edition} {calls : List (Request × UInt64)} {answers₁ answers₂ : List Answer}

theorem unique (h₁ : e.Serially calls answers₁ e₁) (h₂ : e.Serially calls answers₂ e₂) :
    answers₁ = answers₂ ∧ e₁ = e₂ := by
  induction h₁ generalizing answers₂ with
  | nil =>
    cases h₂
    exact ⟨rfl, rfl⟩
  | cons first rest ih =>
    cases h₂ with
    | cons first' rest' =>
      obtain ⟨rfl, rfl⟩ := first.unique first'
      obtain ⟨rfl, rfl⟩ := ih rest'
      exact ⟨rfl, rfl⟩

theorem length_eq (h : e.Serially calls answers₁ e₁) : answers₁.length = calls.length := by
  induction h with
  | nil => rfl
  | cons _ _ ih => rw [List.length_cons, List.length_cons, ih]

end Serially
end Edition

namespace Account

theorem available_le {a : Account} (hp : a.Paired) {i : Nat} {l : Bandwidth} {s : Slot}
    (hat : a.At i l s) : a.available.toInt ≤ s.tokens.toInt :=
  (le_available_iff hp).mp le_rfl i l s hat

theorem exists_available {a : Account} (hp : a.Paired) :
    ∃ i l s, a.At i l s ∧ s.tokens = a.available := by
  have hne : a.ledger.slots.map (·.tokens) ≠ [] :=
    fun hnil => hp.slots_ne_nil (List.map_eq_nil_iff.mp hnil)
  obtain ⟨m, hm⟩ := Option.isSome_iff_exists.mp (List.isSome_min?_of_ne_nil hne)
  obtain ⟨s, hs, htokens⟩ := List.mem_map.mp (List.min?_mem hm)
  obtain ⟨i, hi⟩ := List.mem_iff_getElem?.mp hs
  obtain ⟨l, hat⟩ := hp.exists_at_slot hi
  refine ⟨i, l, s, hat, ?_⟩
  rw [available, Ledger.available, hm, Option.getD_some, htokens]

theorem available_consume {a : Account} (hp : a.Paired) {n : Balance} (hn : 0 ≤ n.toInt)
    (there : n.toInt ≤ a.available.toInt) :
    (a.consume n).available.toInt = a.available.toInt - n.toInt := by
  have hpc := consume_paired n hp
  have hslot : ∀ {i l s}, a.At i l s → (s.consume n).tokens.toInt = s.tokens.toInt - n.toInt := by
    intro i l s hat
    have := available_le hp hat
    exact Slot.consume_tokens hn (by omega)
  apply le_antisymm
  · obtain ⟨i, l, s, hat, htokens⟩ := exists_available hp
    rw [← htokens, ← hslot hat]
    exact available_le hpc (consume_at.mpr ⟨s, hat, rfl⟩)
  · obtain ⟨i, l, s', hat', htokens⟩ := exists_available hpc
    obtain ⟨s, hat, rfl⟩ := consume_at.mp hat'
    rw [← htokens, hslot hat]
    have := available_le hp hat
    omega

end Account

namespace Edition

variable {e e' : Edition} {t : UInt64}

theorem serves_available {work : Account} (refilled : e.account.refill t = .ok work) :
    e.Serves .available t (.available work.available) e :=
  .skip work refilled rfl

theorem Serves.consume {n : Amount} {answer : Answer} {work : Account}
    (h : e.Serves (.consume n) t answer e') (refilled : e.account.refill t = .ok work)
    (there : n.balance.toInt ≤ work.available.toInt) :
    answer = .consumed true ∧ e'.account = work.consume n.balance := by
  obtain ⟨work', refilled', rfl, rfl⟩ := h.exists_work
  obtain rfl : work' = work := Except.ok.inj (refilled'.symm.trans refilled)
  have hle : ¬work'.available < n.balance := by
    rw [Int64.lt_iff_toInt_lt]
    omega
  simp only [Request.operation, Operation.consume, if_neg hle]
  exact ⟨rfl, rfl⟩

def demand (calls : List (Request × UInt64)) : Int :=
  (calls.map fun x => x.1.charged (.consumed true)).sum

theorem charged_consumed_nonneg (r : Request) : 0 ≤ r.charged (.consumed true) := by
  cases r with
  | consume n => exact n.balance_pos.le
  | _ => exact le_rfl

theorem demand_nonneg (calls : List (Request × UInt64)) : 0 ≤ demand calls := by
  apply List.sum_nonneg
  intro n hn
  obtain ⟨x, -, rfl⟩ := List.mem_map.mp hn
  exact charged_consumed_nonneg x.1

theorem demand_consume (ns : List Amount) (t : UInt64) :
    demand (ns.map fun n => (.consume n, t)) = (ns.map (·.balance.toInt)).sum := by
  rw [demand, List.map_map]
  rfl

theorem demand_le {calls calls' : List (Nat × Request × UInt64)} (h : calls.Subperm calls') :
    demand (calls.map Prod.snd) ≤ demand (calls'.map Prod.snd) := by
  obtain ⟨some, hperm, hsub⟩ := h
  rw [demand, ← ((hperm.map _).map _).sum_eq]
  refine ((hsub.map _).map _).sum_le_sum fun n hn => ?_
  obtain ⟨x, -, rfl⟩ := List.mem_map.mp hn
  exact charged_consumed_nonneg x.1

/-- Calls that consume no more than is available all succeed, and leave the rest. -/
theorem Serially.consume {calls : List (Request × UInt64)} {answers : List Answer} {work : Account}
    (h : e.Serially calls answers e') (hp : e.account.Paired)
    (consumes : ∀ x ∈ calls, ∃ n, x = (.consume n, t)) (refilled : e.account.refill t = .ok work)
    (there : demand calls ≤ work.available.toInt) :
    (∀ answer ∈ answers, answer = .consumed true) ∧ ∃ later, e'.account.refill t = .ok later ∧
      later.available.toInt = work.available.toInt - demand calls := by
  induction h generalizing work with
  | nil => exact ⟨by simp, work, refilled, (sub_zero _).symm⟩
  | @cons e e₁ e' r t' answer calls answers first rest ih =>
    obtain ⟨⟨n, hn⟩, others⟩ := List.forall_mem_cons.mp consumes
    cases hn
    have hsum : demand ((.consume n, t) :: calls) = n.balance.toInt + demand calls := List.sum_cons
    have hrest := demand_nonneg calls
    have hr := Account.refills_of_ok refilled
    obtain ⟨hanswer, haccount⟩ := first.consume refilled (by omega)
    have again : e₁.account.refill t = .ok (work.consume n.balance) := by
      rw [haccount]
      exact hr.refill_consume n.balance_pos
    have hleft := Account.available_consume (hr.paired hp) n.balance_pos.le (by omega)
    have hp₁ : e₁.account.Paired := by
      rw [haccount]
      exact Account.consume_paired _ (hr.paired hp)
    obtain ⟨hall, final, hfinal, havailable⟩ := ih hp₁ others again (by omega)
    exact ⟨List.forall_mem_cons.mpr ⟨hanswer, hall⟩, final, hfinal, by omega⟩

end Edition

namespace Happening

def begun (hs : List Happening) : List (Nat × Request × UInt64) :=
  hs.filterMap fun
    | .called k r t => some (k, r, t)
    | _ => none

def ended (hs : List Happening) : List (Nat × Request × UInt64) :=
  hs.filterMap fun
    | .returned k r t _ => some (k, r, t)
    | _ => none

theorem begun_append (hs hs' : List Happening) : begun (hs ++ hs') = begun hs ++ begun hs' :=
  List.filterMap_append

theorem ended_append (hs hs' : List Happening) : ended (hs ++ hs') = ended hs ++ ended hs' :=
  List.filterMap_append

theorem answers_append (hs hs' : List Happening) :
    answers (hs ++ hs') = answers hs ++ answers hs' := List.filterMap_append

theorem begun_reported (k : Nat) (es : List Event) : begun (es.map (.reported k)) = [] := by
  simp [begun]

theorem ended_reported (k : Nat) (es : List Event) : ended (es.map (.reported k)) = [] := by
  simp [ended]

theorem answers_filter (hs : List Happening) : answers (hs.filter isReturn) = answers hs := by
  rw [answers, List.filterMap_filter]
  congr 1
  funext h
  cases h <;> rfl

theorem ended_filter (hs : List Happening) : ended (hs.filter isReturn) = ended hs := by
  rw [ended, List.filterMap_filter]
  congr 1
  funext h
  cases h <;> rfl

end Happening

namespace World

open Happening

variable {w w' : World} {m : Move} {hs : List Happening} {ms : List Move}

theorem Steps.count_begun (h : w.Steps m w' hs) (k : Nat) (x : Request × UInt64) :
    (w.standing k).call?.toList.count x + (begun hs).count (k, x) =
      (ended hs).count (k, x) + (w'.standing k).call?.toList.count x := by
  cases h with
  | ignored => exact Nat.add_comm ..
  | called j r t idle =>
    by_cases hk : k = j
    · subst hk
      rw [put_standing_self, idle]
      simp [begun, ended, Standing.call?, List.count_singleton]
    · rw [put_standing_of_ne _ _ hk]
      simp [begun, ended, Ne.symm hk]
  | loaded j r t called =>
    by_cases hk : k = j
    · subst hk
      rw [put_standing_self, called]
      exact Nat.add_comm ..
    · rw [put_standing_of_ne _ _ hk]
      exact Nat.add_comm ..
  | skipped j r c work running =>
    rw [begun_append, ended_append, begun_reported, ended_reported]
    by_cases hk : k = j
    · subst hk
      rw [put_standing_self, running]
      simp [begun, ended, Standing.call?, List.count_singleton]
    · rw [put_standing_of_ne _ _ hk]
      simp [begun, ended, Ne.symm hk]
  | committed j r c work a' running =>
    rw [begun_append, ended_append, ← List.singleton_append, begun_append, ended_append, begun_reported,
      ended_reported]
    by_cases hk : k = j
    · subst hk
      rw [show ({ w.put k .idle with published := w.published.succ a' } : World).standing k = .idle from
        put_standing_self .., running]
      simp [begun, ended, Standing.call?, List.count_singleton]
    · rw [show ({ w.put j .idle with published := w.published.succ a' } : World).standing k =
        w.standing k from put_standing_of_ne _ _ hk]
      simp [begun, ended, Ne.symm hk]
  | lost j r c running =>
    by_cases hk : k = j
    · subst hk
      rw [put_standing_self, running]
      exact Nat.add_comm ..
    · rw [put_standing_of_ne _ _ hk]
      exact Nat.add_comm ..

theorem Consistent.count_begun (hw : w.Consistent) (ms : List Move) (k : Nat)
    (x : Request × UInt64) :
    (w.standing k).call?.toList.count x + (begun (w.run ms).2).count (k, x) =
      (ended (w.run ms).2).count (k, x) + ((w.run ms).1.standing k).call?.toList.count x := by
  induction ms generalizing w with
  | nil => exact Nat.add_comm ..
  | cons m ms ih =>
    have step := hw.steps m
    have hfirst := step.count_begun k x
    have hrest := ih (step.consistent hw)
    simp only [run, begun_append, ended_append, List.count_append]
    omega

theorem ended_subperm (hw : w.Consistent) (idle : ∀ k, w.standing k = .idle) (ms : List Move) :
    (ended (w.run ms).2).Subperm (begun (w.run ms).2) := by
  refine List.subperm_ext_iff.mpr fun ⟨k, x⟩ _ => ?_
  have := hw.count_begun ms k x
  rw [idle k, Standing.call?, Option.toList_none, List.count_nil] at this
  omega

theorem ended_perm (hw : w.Consistent) (idle : ∀ k, w.standing k = .idle)
    (settled : ∀ k, (w.run ms).1.standing k = .idle) :
    (ended (w.run ms).2).Perm (begun (w.run ms).2) := by
  refine List.perm_iff_count.mpr fun ⟨k, x⟩ => ?_
  have := hw.count_begun ms k x
  rw [idle k, settled k, Standing.call?, Option.toList_none, List.count_nil] at this
  omega

theorem run_serially (calls : List (Nat × Request × UInt64)) : ∀ {w : World}, w.Consistent →
    (∀ k, w.standing k = .idle) → w.published.Serially (calls.map Prod.snd)
      (answers (w.run (calls.flatMap fun x => Move.whole x.1 x.2.1 x.2.2)).2)
      (w.run (calls.flatMap fun x => Move.whole x.1 x.2.1 x.2.2)).1.published := by
  induction calls with
  | nil => intro w _ _; exact .nil _
  | cons x calls ih =>
    intro w hw idle
    obtain ⟨k, r, t⟩ := x
    obtain ⟨w', hs, answer, hrun, hw', serves, returns, idle'⟩ := run_whole hw r t (idle k)
    have hanswers : answers hs = [answer] := by rw [← answers_filter, returns]; rfl
    rw [List.flatMap_cons, run_append, hrun, answers_append, hanswers]
    exact .cons serves (ih hw' fun k => idle' k (idle k))

/-- The calls that have returned in a run, in some order, are served one after another with the same
answers and the same edition at the end. -/
theorem exists_serially (hw : w.Consistent) (idle : ∀ k, w.standing k = .idle) (ms : List Move) :
    ∃ calls answers', (ended (w.run ms).2).Perm calls ∧ (answers (w.run ms).2).Perm answers' ∧
      w.published.Serially (calls.map Prod.snd) answers' (w.run ms).1.published := by
  obtain ⟨xs, hxs, hof, hreturned, hpoints⟩ := @exists_history _ ms hw idle ms.length le_rfl
  obtain ⟨order, hperm, hsorted⟩ := Served.exists_order hw (fun x hx => (hof x hx).1) hreturned
  have hof := fun x (hx : x ∈ order) => hof x (hperm.mem_iff.mpr hx)
  obtain ⟨hfinal, hreplay⟩ := replay order 0 (Nat.zero_le _)
    (fun x hx => ⟨(hof x hx).2.1, Nat.zero_le _, (hof x hx).1.point_le.trans_lt (hof x hx).2.2⟩)
    hsorted
    (fun l _ hl hne => by
      obtain ⟨x, hx, hxl⟩ := hpoints l hl hne
      exact ⟨x, hperm.mem_iff.mp hx, hxl⟩)
    w hw idle rfl
  have hcomplete : ((w.run ms).2.filter isReturn).Perm (order.map Served.happening) := by
    rw [← seen_length, hxs]
    exact hperm.map _
  let calls := order.map fun x => (x.caller, x.request, x.reading)
  have hmoves : (calls.flatMap fun x => Move.whole x.1 x.2.1 x.2.2) = order.flatMap Served.moves :=
    List.flatMap_map ..
  have hserially := run_serially calls hw idle
  rw [hmoves, hfinal, after_length, ← answers_filter, hreplay] at hserially
  refine ⟨calls, _, ?_, ?_, hserially⟩
  · have hcalls : ended (order.map Served.happening) = calls := by
      rw [ended, List.filterMap_map]
      exact congrFun List.filterMap_eq_map order
    rw [← ended_filter, ← hcalls]
    exact hcomplete.filterMap _
  · rw [← answers_filter]
    exact hcomplete.filterMap _

section

variable {e : Edition} {t : UInt64}

/-- Equal calls are answered as many of them one after another. -/
theorem uniform (hw : w.Consistent) (idle : ∀ k, w.standing k = .idle) {r : Request}
    (equal : ∀ x ∈ begun (w.run ms).2, x.2 = (r, t)) (callers : List Nat)
    (hlen : callers.length = (answers (w.run ms).2).length) :
    (answers (w.run ms).2).Perm (answers (w.run (callers.flatMap (Move.whole · r t))).2) ∧
      (w.run ms).1.published = (w.run (callers.flatMap (Move.whole · r t))).1.published := by
  obtain ⟨calls, answers', hcalls, hanswers, hserially⟩ := exists_serially hw idle ms
  have hone := run_serially (callers.map fun k => (k, r, t)) hw idle
  have hmoves : ((callers.map fun k => (k, r, t)).flatMap fun x => Move.whole x.1 x.2.1 x.2.2) =
      callers.flatMap (Move.whole · r t) := List.flatMap_map ..
  -- Both are as many calls, and all of them are the same.
  have hsame : calls.map Prod.snd = (callers.map fun k => (k, r, t)).map Prod.snd := by
    have hleft : calls.map Prod.snd = List.replicate calls.length (r, t) := by
      refine List.map_eq_replicate_iff.mpr fun x hx => ?_
      exact equal x ((ended_subperm hw idle ms).subset (hcalls.mem_iff.mpr hx))
    have hcount := hserially.length_eq
    rw [List.length_map, ← hanswers.length_eq, ← hlen] at hcount
    rw [hleft, ← hcount, List.map_map]
    exact (List.map_eq_replicate_iff.mpr fun _ _ => rfl).symm
  rw [hmoves, ← hsame] at hone
  obtain ⟨hall, hpublished⟩ := hserially.unique hone
  rw [← hall]
  exact ⟨hanswers, hpublished⟩

/-- Calls that consume no more than is available are all answered that they did, and when nobody is
at work any more the rest is left. -/
theorem consumed (hw : w.Consistent) (idle : ∀ k, w.standing k = .idle) {work : Account}
    (consumes : ∀ x ∈ begun (w.run ms).2, ∃ n, x.2 = (.consume n, t))
    (refilled : w.published.account.refill t = .ok work)
    (there : Edition.demand ((begun (w.run ms).2).map Prod.snd) ≤ work.available.toInt) :
    (∀ answer ∈ answers (w.run ms).2, answer = .consumed true) ∧
      ((∀ k, (w.run ms).1.standing k = .idle) → ∃ later,
        (w.run ms).1.published.account.refill t = .ok later ∧ later.available.toInt =
          work.available.toInt - Edition.demand ((begun (w.run ms).2).map Prod.snd)) := by
  obtain ⟨calls, answers', hcalls, hanswers, hserially⟩ := exists_serially hw idle ms
  have hsub := hcalls.symm.subperm.trans (ended_subperm hw idle ms)
  have hle := Edition.demand_le hsub
  have hconsumes : ∀ x ∈ calls.map Prod.snd, ∃ n, x = (.consume n, t) :=
    List.forall_mem_map.mpr fun x hx => consumes x (hsub.subset hx)
  obtain ⟨hall, later, hlater, havailable⟩ :=
    hserially.consume hw.paired hconsumes refilled (hle.trans there)
  refine ⟨fun answer h => hall answer (hanswers.mem_iff.mp h), fun settled => ⟨later, hlater, ?_⟩⟩
  have hge := Edition.demand_le ((ended_perm hw idle settled).symm.trans hcalls).subperm
  omega

end

theorem length_answers (hw : w.Consistent) (idle : ∀ k, w.standing k = .idle)
    (settled : ∀ k, (w.run ms).1.standing k = .idle) :
    (answers (w.run ms).2).length = (begun (w.run ms).2).length := by
  obtain ⟨calls, answers', hcalls, hanswers, hserially⟩ := exists_serially hw idle ms
  rw [hanswers.length_eq, hserially.length_eq, List.length_map, ← hcalls.length_eq,
    (ended_perm hw idle settled).length_eq]

def resting (s : Strategy) (e : Edition) : World := ⟨s, e, fun _ => .idle⟩

theorem resting_consistent {s : Strategy} (hs : s ≠ .unshared) {e : Edition}
    (paired : e.account.Paired) : (resting s e).Consistent :=
  ⟨hs, paired, fun h => by cases h⟩

/-- What calls for `r` at reading `t` come to in any order: the answers, and what is published, are
those of as many calls made one after another, by whatever callers. -/
structure Uniform (w : World) (ms : List Move) (r : Request) (t : UInt64) : Prop where
  sequential : ∀ callers : List Nat, callers.length = (answers (w.run ms).2).length →
    (answers (w.run ms).2).Perm (answers (w.run (callers.flatMap (Move.whole · r t))).2) ∧
      (w.run ms).1.published = (w.run (callers.flatMap (Move.whole · r t))).1.published
  complete : (∀ k, (w.run ms).1.standing k = .idle) →
    (answers (w.run ms).2).length = (begun (w.run ms).2).length

/-- What calls that consume these amounts at reading `t` come to when they ask for no more than the
`b` tokens that are available: all get theirs, and the rest is available when all have. -/
structure Satisfied (w : World) (ms : List Move) (ns : List Amount) (t : UInt64) (b : Balance) :
    Prop where
  succeed : ∀ answer ∈ answers (w.run ms).2, answer = .consumed true
  complete : (∀ k, (w.run ms).1.standing k = .idle) → (answers (w.run ms).2).length = ns.length ∧
    ∃ rest : Balance, rest.toInt = b.toInt - (ns.map (·.balance.toInt)).sum ∧
      (w.run ms).1.published.Serves .available t (.available rest) (w.run ms).1.published

/-- Independence of the schedule, for a shared bucket in any state and any number of calls at one
reading of the clock: for equal calls of any kind, and for calls that consume no more than there
is. -/
theorem schedule_independent (s : Strategy) (hs : s ≠ .unshared) (e : Edition)
    (paired : e.account.Paired) (t : UInt64) (ms : List Move) :
    (∀ r, (∀ x ∈ begun ((resting s e).run ms).2, x.2 = (r, t)) → (resting s e).Uniform ms r t) ∧
      ∀ ns b, (begun ((resting s e).run ms).2).map Prod.snd = ns.map (fun n => (.consume n, t)) →
        e.Serves .available t (.available b) e → (ns.map (·.balance.toInt)).sum ≤ b.toInt →
        (resting s e).Satisfied ms ns t b := by
  have hw := resting_consistent hs paired
  have idle : ∀ k, (resting s e).standing k = .idle := fun _ => rfl
  refine ⟨fun r equal => ⟨uniform hw idle equal, length_answers hw idle⟩, ?_⟩
  intro ns b hbegun shows hsum
  obtain ⟨work, refilled, hb, -⟩ := shows.exists_work
  obtain rfl : b = work.available := Answer.available.inj hb
  rw [← Edition.demand_consume ns t, ← hbegun] at hsum
  have hconsumes : ∀ x ∈ begun ((resting s e).run ms).2, ∃ n, x.2 = (.consume n, t) := by
    intro x hx
    have hmem := List.mem_map_of_mem (f := Prod.snd) hx
    rw [hbegun] at hmem
    obtain ⟨n, -, hn⟩ := List.mem_map.mp hmem
    exact ⟨n, hn.symm⟩
  obtain ⟨hall, hrest⟩ := consumed hw idle hconsumes refilled hsum
  refine ⟨hall, fun settled => ⟨?_, ?_⟩⟩
  · rw [length_answers hw idle settled, ← List.length_map Prod.snd, hbegun, List.length_map]
  · obtain ⟨later, hlater, havailable⟩ := hrest settled
    rw [hbegun, Edition.demand_consume] at havailable
    exact ⟨_, havailable, Edition.serves_available hlater⟩

def eighth : Edition :=
  ⟨7, .single (.perSecond ⟨22, by decide⟩) (by decide), ⟨[⟨8, 850000000, 500000000⟩]⟩⟩

/-- All three callers have their copies when caller 0 publishes. Caller 1 loses to it, and then to
caller 2. -/
def contended (first second third : Nat) : List Move :=
  [.call 0 (consume first) 900000000, .call 1 (consume second) 900000000,
    .call 2 (consume third) 900000000, .load 2, .load 1, .load 0, .attempt 0, .attempt 1, .attempt 2,
    .attempt 2, .attempt 1, .attempt 1]
where
  consume (n : Nat) : Request := .consume ((Amount.ofNat? n).getD .one)

/-- Nine tokens are there by then: enough for two calls of four, and for calls of two, three and four. -/
theorem schedule_independent_contended :
    (answers ((resting .atomic eighth).run (contended 4 4 4)).2 =
        [.consumed true, .consumed true, .consumed false] ∧
      (resting .atomic eighth).Uniform (contended 4 4 4) (.consume ⟨4, by decide⟩) 900000000) ∧
    (answers ((resting .atomic eighth).run (contended 2 3 4)).2).length = 3 ∧
      (resting .atomic eighth).Satisfied (contended 2 3 4)
        [⟨2, by decide⟩, ⟨3, by decide⟩, ⟨4, by decide⟩] 900000000 9 := by
  have refilled : eighth.account.refill 900000000 =
      .ok ⟨.single (.perSecond ⟨22, by decide⟩) (by decide), ⟨[⟨9, 900000000, 600000000⟩]⟩⟩ := by
    decide +kernel
  have shows : eighth.Serves .available 900000000 (.available 9) eighth :=
    Edition.serves_available refilled
  obtain ⟨equal, -⟩ :=
    schedule_independent .atomic (by decide) eighth rfl 900000000 (contended 4 4 4)
  obtain ⟨-, enough⟩ :=
    schedule_independent .atomic (by decide) eighth rfl 900000000 (contended 2 3 4)
  refine ⟨⟨by decide +kernel, equal _ (by decide +kernel)⟩, by decide +kernel, ?_⟩
  exact enough _ 9 (by decide +kernel) shows (by decide)

end World
end Throttle
