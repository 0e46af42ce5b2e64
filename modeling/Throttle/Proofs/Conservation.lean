import Mathlib.Tactic.Ring
import Throttle.Proofs.Linearizability

/-! Conservation. However calls interleave, the worth of a slot is never more than its worth at the
start with what was given since, by time and by additions, less all that was granted. Only what
does not fit below the ceiling is lost. -/

namespace Throttle

namespace Slot

/-- What is missing from the worth of `s'` when it comes after `s`, with `net` tokens given and all
that the limit gives for the time between. -/
def lost (s s' : Slot) (b : Bandwidth) (net : Int) : Int :=
  s.worth b + b.period.toNat * net + (s'.lastRefill.toNat - s.lastRefill.toNat) * b.refill.toNat -
    s'.worth b

variable {s s' : Slot} {b : Bandwidth} {n : Balance}

theorem lost_self (s : Slot) (b : Bandwidth) : s.lost s b 0 = 0 := by
  unfold lost; ring

theorem lost_new (s : Slot) (b : Bandwidth) (now : UInt64) (net : Int) :
    (Slot.new b now).lost s b net =
      b.period.toNat * ((Slot.new b now).tokens.toInt + net) +
        (s.lastRefill.toNat - now.toNat) * b.refill.toNat -
      (b.period.toNat * s.tokens.toInt + s.carry.toNat) := by
  have hcarry : (Slot.new b now).carry.toNat = 0 := rfl
  have hlast : (Slot.new b now).lastRefill = now := rfl
  rw [lost, worth, worth, hcarry, hlast]
  push_cast; ring

theorem lost_trans (s s' s'' : Slot) (b : Bandwidth) (m n : Int) :
    s.lost s'' b (m + n) = s.lost s' b m + s'.lost s'' b n := by
  unfold lost; ring

theorem Refills.lost_nonneg {now : UInt64} (h : s.Refills b now s') : 0 ≤ s.lost s' b 0 := by
  have := h.worth_le
  unfold lost; linarith

theorem Refills.lost_eq_zero {now : UInt64} (h : s.Refills b now s') (below : s'.tokens < b.ceiling) :
    s.lost s' b 0 = 0 := by
  have := h.worth_eq (Int64.lt_iff_toInt_lt.mp below)
  unfold lost; linarith

theorem consume_lost (hn : 0 ≤ n.toInt) (room : -2 ^ 63 ≤ s.tokens.toInt - n.toInt) :
    s.lost (s.consume n) b (-n.toInt) = 0 := by
  have := consume_worth (b := b) hn room
  rw [lost, consume_lastRefill]; linarith

theorem add_lost_nonneg (hn : 0 ≤ n.toInt) : 0 ≤ s.lost (s.add b n) b n.toInt := by
  have := add_worth_le (s := s) (b := b) hn
  rw [lost, add_lastRefill]; linarith

theorem add_lost_eq_zero (hn : 0 ≤ n.toInt) (below : (s.add b n).tokens < b.ceiling) :
    s.lost (s.add b n) b n.toInt = 0 := by
  have := add_worth_eq hn (Int64.lt_iff_toInt_lt.mp below)
  rw [lost, add_lastRefill]; linarith

end Slot

namespace Account

variable {a a' : Account} {r : Request} {reading : UInt64} {answer : Answer} {i : Nat} {b : Bandwidth}
  {s' : Slot}

/-- The refill at this reading, and what the call adds, leave slot `i` below its ceiling. -/
def StaysBelow (a : Account) (r : Request) (reading : UInt64) (i : Nat) : Prop :=
  ∀ work b s, a.refill reading = .ok work → work.At i b s →
    s.tokens < b.ceiling ∧ ∀ n : Amount, r = .add n → (s.add b n.balance).tokens < b.ceiling

theorem Commits.configuration_eq (h : a.Commits r reading answer a') (hp : a.Paired)
    (keeps : ∀ c, r ≠ .replace c) : a'.configuration = a.configuration := by
  obtain ⟨work, refilled, published, -⟩ := h
  have hr := refills_of_ok refilled
  cases Request.publishes (hr.paired hp) published with
  | charge n => exact hr.configuration
  | give n => exact hr.configuration
  | replace c request => exact absurd request (keeps c)

/-- Beside what it grants and adds, what is published loses nothing but what is above the ceiling. -/
theorem lost_of_publishes (h : r.Publishes a answer a') (keeps : ∀ c, r ≠ .replace c)
    (hrate : b.refill = 0 ∨ 2 * b.refill.toNat ≤ b.period.toNat)
    (hcarry : ∀ s, a.At i b s → s.carry.toNat < b.period.toNat) (hat : a'.At i b s') :
    ∃ s, a.At i b s ∧ s'.lastRefill = s.lastRefill ∧ s'.carry.toNat < b.period.toNat ∧
      0 ≤ s.lost s' b (r.added - r.charged answer) ∧
      ((∀ n : Amount, r = .add n → (s.add b n.balance).tokens < b.ceiling) →
        s.lost s' b (r.added - r.charged answer) = 0) := by
  cases h with
  | charge n pos ends charged added =>
    obtain ⟨s, hs, rfl⟩ := consume_at.mp hat
    have room := Slot.room_of_delay hrate (hcarry s hs) (delay_isInfinite_iff.mp ends i b s hs)
    have hlost : s.lost (s.consume n) b (r.added - r.charged answer) = 0 := by
      rw [charged, added, zero_sub]
      exact Slot.consume_lost pos.le room
    exact ⟨s, hs, rfl, hcarry s hs, hlost.ge, fun _ => hlost⟩
  | give n request charged =>
    obtain ⟨s, hs, rfl⟩ := add_at.mp hat
    have hn := n.balance_pos.le
    have hnet : r.added - r.charged answer = n.balance.toInt := by
      rw [charged, request, sub_zero]
      rfl
    rw [hnet]
    refine ⟨s, hs, Slot.add_lastRefill .., Slot.add_carry_lt hn (hcarry s hs),
      Slot.add_lost_nonneg hn, fun below => ?_⟩
    exact Slot.add_lost_eq_zero hn (below n request)
  | replace c request => exact absurd request (keeps c)

/-- The time up to its reading counted as well, the same holds of a call. -/
theorem Commits.lost (h : a.Commits r reading answer a') (hp : a.Paired)
    (keeps : ∀ c, r ≠ .replace c) (hrate : b.refill = 0 ∨ 2 * b.refill.toNat ≤ b.period.toNat)
    (hcarry : ∀ s, a.At i b s → s.carry.toNat < b.period.toNat) (hat : a'.At i b s') :
    ∃ s, a.At i b s ∧ s'.carry.toNat < b.period.toNat ∧
      0 ≤ s.lost s' b (r.added - r.charged answer) ∧
      (a.StaysBelow r reading i → s.lost s' b (r.added - r.charged answer) = 0) := by
  obtain ⟨work, refilled, published, rfl⟩ := h
  have hr := refills_of_ok refilled
  obtain ⟨s₁, hat₁, -, hcarry', hle, heq⟩ := lost_of_publishes
    (Request.publishes (hr.paired hp) published) keeps hrate (fun _ => hr.carry_lt hcarry) hat
  obtain ⟨s, hs, hrefills⟩ := hr.slots hat₁
  have hsum := Slot.lost_trans s s₁ s' b 0 (r.added - r.charged (r.operation work).answer)
  rw [zero_add] at hsum
  refine ⟨s, hs, hcarry', ?_⟩
  rw [hsum]
  refine ⟨add_nonneg hrefills.lost_nonneg hle, fun below => ?_⟩
  obtain ⟨hrefilled, hadd⟩ := below work b s₁ refilled hat₁
  rw [hrefills.lost_eq_zero hrefilled, heq hadd, add_zero]

end Account

namespace Happening

def charged : Happening → Int
  | .returned _ r _ answer => r.charged answer
  | _ => 0

def added : Happening → Int
  | .returned _ r _ _ => r.added
  | _ => 0

def total (f : Happening → Int) (hs : List Happening) : Int := (hs.map f).sum

@[simp] theorem total_nil (f : Happening → Int) : total f [] = 0 := rfl

@[simp] theorem total_cons (f : Happening → Int) (h : Happening) (hs : List Happening) :
    total f (h :: hs) = f h + total f hs := by simp [total]

@[simp] theorem total_append (f : Happening → Int) (hs hs' : List Happening) :
    total f (hs ++ hs') = total f hs + total f hs' := by simp [total]

theorem total_reported {f : Happening → Int} {k : Nat} (hf : ∀ e, f (.reported k e) = 0)
    (es : List Event) : total f (es.map (.reported k)) = 0 := by
  induction es with
  | nil => rfl
  | cons e es ih => simp [ih, hf]

end Happening

namespace World

open Happening

/-- What a move publishes, and what the calls that return with it grant and add. -/
inductive Books (w : World) (m : Move) (w' : World) (hs : List Happening) : Prop
  | still (published : w'.published = w.published) (charged : total charged hs = 0)
      (added : total added hs = 0)
  | booked (k : Nat) (r : Request) (c : Call Answer) (answer : Answer) (move : m = .attempt k)
      (running : w.standing k = .running r c) (current : c.previous = w.published)
      (changed : w'.published ≠ w.published)
      (commits : w.published.account.Commits r c.reading answer w'.published.account)
      (charged : total charged hs = r.charged answer) (added : total added hs = r.added)

theorem Steps.books {w w' : World} {m : Move} {hs : List Happening} (h : w.Steps m w' hs) :
    w.Books m w' hs := by
  have hcharged : ∀ k (es : List Event), total charged (es.map (.reported k)) = 0 :=
    fun _ => total_reported fun _ => rfl
  have hadded : ∀ k (es : List Event), total added (es.map (.reported k)) = 0 :=
    fun _ => total_reported fun _ => rfl
  cases h with
  | ignored => exact .still rfl rfl rfl
  | called => exact .still rfl rfl rfl
  | loaded => exact .still rfl rfl rfl
  | skipped k r c work running refilled unpublished =>
    obtain ⟨charged, added⟩ := Request.unpublished unpublished
    refine .still rfl ?_ ?_
    · simp [hcharged, Happening.charged, charged]
    · simp [hadded, Happening.added, added]
  | committed k r c work a' running current refilled publishes =>
    refine .booked k r c _ rfl running current ?_ (.intro work refilled publishes rfl) ?_ ?_
    · intro h
      exact Nat.succ_ne_self _ (congrArg Edition.number h)
    · simp [hcharged, Happening.charged]
    · simp [hadded, Happening.added]
  | lost => exact .still rfl rfl rfl

def StaysBelow (w : World) (ms : List Move) (i : Nat) : Prop :=
  ∀ j k r c, ms[j]? = some (.attempt k) → (w.after ms j).standing k = .running r c →
    (w.after ms (j + 1)).published ≠ (w.after ms j).published →
    c.previous.account.StaysBelow r c.reading i

def Unreplaced (ms : List Move) : Prop := ∀ k c t, Move.call k (.replace c) t ∉ ms

variable {w : World} {ms : List Move} {i : Nat} {b : Bandwidth} {s₀ : Slot}

theorem not_replace (hw : w.Consistent) (idle : ∀ k, w.standing k = .idle) (hms : Unreplaced ms)
    {j k : Nat} (hj : j ≤ ms.length) {r : Request} {c : Call Answer}
    (running : (w.after ms j).standing k = .running r c) (c' : Configuration) : r ≠ .replace c' := by
  rintro rfl
  have h := explained hw idle k j hj
  rw [running] at h
  obtain ⟨_, _, began, -⟩ := h
  exact hms k c' _ (List.mem_of_getElem? began.move)

theorem conserved (hw : w.Consistent) (idle : ∀ k, w.standing k = .idle) (hms : Unreplaced ms)
    (hrate : b.refill = 0 ∨ 2 * b.refill.toNat ≤ b.period.toNat)
    (hat₀ : w.published.account.At i b s₀) (hcarry : s₀.carry.toNat < b.period.toNat) :
    ∀ j, j ≤ ms.length →
      (w.after ms j).published.account.configuration = w.published.account.configuration ∧
      ∀ s, (w.after ms j).published.account.At i b s → s.carry.toNat < b.period.toNat ∧
        0 ≤ s₀.lost s b (total added (w.seen ms j) - total charged (w.seen ms j)) ∧
        (w.StaysBelow ms i →
          s₀.lost s b (total added (w.seen ms j) - total charged (w.seen ms j)) = 0) := by
  intro j
  induction j with
  | zero =>
    intro _
    refine ⟨rfl, fun s hat => ?_⟩
    obtain ⟨-, rfl⟩ := hat.unique hat₀
    rw [seen_zero, total_nil, total_nil, sub_zero, s.lost_self b]
    exact ⟨hcarry, le_rfl, fun _ => rfl⟩
  | succ j ih =>
    intro hj
    obtain ⟨hconf, ih⟩ := ih (by omega)
    have hm := List.getElem?_eq_getElem (l := ms) (i := j) (by omega)
    have hbooks := (hw.steps_after hm).books
    rw [seen_succ hm, total_append, total_append]
    generalize ((w.after ms j).step ms[j]).2 = hs at hbooks ⊢
    cases hbooks with
    | still published charged added =>
      rw [published, charged, added, add_zero, add_zero]
      exact ⟨hconf, ih⟩
    | booked k r c answer move running current changed commits charged added =>
      have hj' : j ≤ ms.length := by omega
      have keeps := not_replace hw idle hms hj' running
      have hp := (hw.after j hj').paired
      refine ⟨(commits.configuration_eq hp keeps).trans hconf, fun s' hat' => ?_⟩
      obtain ⟨s, hat, hcarry', hle, heq⟩ :=
        commits.lost hp keeps hrate (fun s hat => (ih s hat).1) hat'
      obtain ⟨-, hle₀, heq₀⟩ := ih s hat
      refine ⟨hcarry', ?_⟩
      rw [charged, added, add_sub_add_comm, Slot.lost_trans s₀ s]
      refine ⟨add_nonneg hle₀ hle, fun below => ?_⟩
      have hbelow := below j k r c (hm.trans (by rw [move])) running changed
      rw [current] at hbelow
      rw [heq₀ below, heq hbelow, add_zero]

theorem conserved_shared {s : Strategy} (hs : s ≠ .unshared) (c : Configuration) (now : UInt64)
    (hms : Unreplaced ms) (hb : c.bandwidths[i]? = some b)
    (hrate : b.refill = 0 ∨ 2 * b.refill.toNat ≤ b.period.toNat) :
    ∃ slot, ((new s c now).run ms).1.published.account.At i b slot ∧
      0 ≤ (Slot.new b now).lost slot b
        (total added ((new s c now).run ms).2 - total charged ((new s c now).run ms).2) ∧
      ((new s c now).StaysBelow ms i → (Slot.new b now).lost slot b
        (total added ((new s c now).run ms).2 - total charged ((new s c now).run ms).2) = 0) := by
  have hw := new_consistent hs c now
  have hat₀ : (new s c now).published.account.At i b (Slot.new b now) :=
    Account.new_at.mpr ⟨hb, rfl⟩
  obtain ⟨hconf, hall⟩ :=
    conserved hw (fun _ => rfl) hms hrate hat₀ hat₀.valid.toNat_pos ms.length le_rfl
  have hp := (hw.after ms.length le_rfl).paired
  rw [after_length] at hconf hp hall
  rw [seen_length] at hall
  rw [← show (new s c now).published.account.configuration = c from rfl, ← hconf] at hb
  obtain ⟨slot, hat⟩ := hp.exists_at hb
  exact ⟨slot, hat, (hall slot hat).2⟩

/-- Calls that are not overtaken stay below the ceiling however the bucket is shared. -/
theorem Undisturbed.staysBelow (h : w.Undisturbed ms) (s : Strategy) (below : w.StaysBelow ms i) :
    ({ w with strategy := s } : World).StaysBelow ms i := by
  intro j k r c hm running changed
  obtain ⟨hj, -⟩ := List.getElem?_eq_some_iff.mp hm
  rw [(h.run_strategy s j hj.le).1] at running changed
  rw [(h.run_strategy s (j + 1) hj).1] at changed
  exact below j k r c hm running changed

theorem new_undisturbed (s : Strategy) (c : Configuration) (now : UInt64)
    (calls : List (Nat × Request × UInt64)) :
    (new s c now).Undisturbed (calls.flatMap fun x => Move.whole x.1 x.2.1 x.2.2) := by
  have hshared := new_consistent (s := .atomic) (by decide) c now
  exact (undisturbed_whole calls hshared fun _ => rfl).strategy s

/-- Conservation, for every run of calls that replace no configuration. The limit gives at most half
a token in a nanosecond, so that no debt is too deep for a balance. Where nothing is cut off at the
ceiling the account is exact. -/
theorem conservation (s : Strategy) (c : Configuration) (now : UInt64) (ms : List Move)
    (hs : s = .unshared → (new s c now).Undisturbed ms) (hms : Unreplaced ms)
    (hb : c.bandwidths[i]? = some b) (hrate : b.refill = 0 ∨ 2 * b.refill.toNat ≤ b.period.toNat) :
    ∃ slot, ((new s c now).run ms).1.published.account.At i b slot ∧
      b.period.toNat * slot.tokens.toInt + slot.carry.toNat ≤
        b.period.toNat * ((Slot.new b now).tokens.toInt +
            total added ((new s c now).run ms).2 - total charged ((new s c now).run ms).2) +
          (slot.lastRefill.toNat - now.toNat) * b.refill.toNat ∧
      ((new s c now).StaysBelow ms i →
        b.period.toNat * slot.tokens.toInt + slot.carry.toNat =
          b.period.toNat * ((Slot.new b now).tokens.toInt +
              total added ((new s c now).run ms).2 - total charged ((new s c now).run ms).2) +
            (slot.lastRefill.toNat - now.toNat) * b.refill.toNat) := by
  suffices h : ∃ slot, ((new s c now).run ms).1.published.account.At i b slot ∧
      0 ≤ (Slot.new b now).lost slot b
        (total added ((new s c now).run ms).2 - total charged ((new s c now).run ms).2) ∧
      ((new s c now).StaysBelow ms i → (Slot.new b now).lost slot b
        (total added ((new s c now).run ms).2 - total charged ((new s c now).run ms).2) = 0) by
    obtain ⟨slot, hat, hle, heq⟩ := h
    rw [Slot.lost_new] at hle heq
    exact ⟨slot, hat, by linarith, fun below => by linarith [heq below]⟩
  by_cases hu : s = .unshared
  · -- calls that are not overtaken do the same to a bucket that is shared
    have hrun := (hs hu).run_strategy .atomic ms.length le_rfl
    rw [after_length, after_length, seen_length, seen_length] at hrun
    obtain ⟨hafter, hseen⟩ := hrun
    obtain ⟨slot, hat, hle, heq⟩ :=
      conserved_shared (s := .atomic) nofun c now hms hb hrate
    rw [show new .atomic c now = { new s c now with strategy := .atomic } from rfl] at hat hle heq
    rw [hafter] at hat
    rw [hseen] at hle heq
    exact ⟨slot, hat, hle, fun below => heq ((hs hu).staysBelow .atomic below)⟩
  · exact conserved_shared hu c now hms hb hrate

def halfFull : Bandwidth := { Bandwidth.perSecond ⟨20, by decide⟩ with initial := some 10 }

theorem staysBelow_lostRace :
    (new .atomic (.single halfFull (by decide)) 0).StaysBelow lostRace 0 := by
  intro j k r c hm running changed
  obtain ⟨hj, -⟩ := List.getElem?_eq_some_iff.mp hm
  match j with
  | 0 | 1 | 2 | 3 => cases hm
  | 4 =>
    cases hm
    cases running
    intro work b s refilled hat
    cases refilled
    obtain ⟨hb, hs⟩ := hat
    cases hb
    cases hs
    exact ⟨by decide, nofun⟩
  | 5 => exact absurd rfl changed
  | 6 => exact absurd rfl changed
  | j + 7 => exact absurd hj (by simp [lostRace])

def ahead : List Move :=
  [(0, .reserve ⟨12, by decide⟩ .infinite, 0), (1, .add ⟨6, by decide⟩, 7)].flatMap
    fun x : Nat × Request × UInt64 => Move.whole x.1 x.2.1 x.2.2

/-- The race is accounted for to the last nanosecond, and so is a debt in a bucket of one caller. -/
theorem conservation_lostRace :
    (∃ slot, ((new .atomic (.single halfFull (by decide)) 0).run lostRace).1.published.account.At 0
        halfFull slot ∧
      second * slot.tokens.toInt + slot.carry.toNat =
        second * (10 + 0 - 7) + (slot.lastRefill.toNat - 0) * 20) ∧
    ∃ slot, ((new .unshared (.single halfFull (by decide)) 0).run ahead).1.published.account.At 0
        halfFull slot ∧
      second * slot.tokens.toInt + slot.carry.toNat ≤
        second * (10 + 6 - 12) + (slot.lastRefill.toNat - 0) * 20 := by
  have hrace : Unreplaced lostRace := by
    intro k c t h
    simp [lostRace] at h
  have hahead : Unreplaced ahead := by
    intro k c t h
    simp [ahead, Move.whole] at h
  constructor
  · obtain ⟨slot, hat, -, heq⟩ :=
      conservation .atomic (.single halfFull (by decide)) 0 lostRace (fun h => by cases h) hrace
        (i := 0) rfl (by decide)
    exact ⟨slot, hat, heq staysBelow_lostRace⟩
  · obtain ⟨slot, hat, hle, -⟩ :=
      conservation .unshared (.single halfFull (by decide)) 0 ahead
        (fun _ => new_undisturbed .unshared _ 0 _) hahead (i := 0) rfl (by decide)
    exact ⟨slot, hat, hle⟩

end World
end Throttle
