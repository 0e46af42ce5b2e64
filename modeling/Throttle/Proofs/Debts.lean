import Throttle.Proofs.Probes
import Throttle.Proofs.Windows

/-! Debts. A reservation looks at its own wait alone, but that wait is the time in which everything
that its slots owe comes back. So if nobody may wait longer than `W`, no slot ever owes more than
its limit gives in `W`, however many reservations are outstanding. -/

namespace Throttle

namespace Slot

/-- In `w` nanoseconds the limit gives all that the slot owes. -/
def Clears (s : Slot) (b : Bandwidth) (w : Nat) : Prop := 0 ≤ s.worth b + w * b.refill.toNat

variable {s s' : Slot} {b : Bandwidth} {n : Balance} {t : UInt64} {w w' : Nat}

theorem Clears.mono (h : s.Clears b w) (hw : w ≤ w') : s.Clears b w' := by
  have hmul : (w * b.refill.toNat : Int) ≤ w' * b.refill.toNat := by
    exact_mod_cast Nat.mul_le_mul_right b.refill.toNat hw
  unfold Clears at h ⊢
  linarith

theorem clears_of_tokens_nonneg (h : 0 ≤ s.tokens.toInt) : s.Clears b w := by
  unfold Clears worth
  positivity

theorem Clears.tokens_nonneg (h : s.Clears b w) (hr : b.refill = 0)
    (hc : s.carry.toNat < b.period.toNat) : 0 ≤ s.tokens.toInt := by
  by_contra hneg
  have hdebt := mul_le_mul_of_nonneg_left (show s.tokens.toInt ≤ -1 by omega)
    (Int.natCast_nonneg b.period.toNat)
  rw [Clears, worth, hr, UInt64.toNat_zero] at h
  push_cast at h
  omega

theorem new_clears (b : Bandwidth) (now : UInt64) : (Slot.new b now).Clears b w := by
  apply clears_of_tokens_nonneg
  have hceiling : 0 < b.ceiling.toInt := b.capacity.balance_pos
  rw [Slot.new, Balance.toInt_min, toInt_ofIntClamp]
  omega

theorem Refills.clears (h : s.Refills b t s') (hs : s.Clears b w) : s'.Clears b w := by
  rcases lt_or_eq_of_le h.tokens_le with below | full
  · have hgain : (0 : Int) ≤ s.elapsed t * b.refill.toNat := by positivity
    rw [h.elapsed_eq] at hgain
    unfold Clears at hs ⊢
    rw [h.worth_eq below]
    linarith
  · have hceiling : 0 < b.ceiling.toInt := b.capacity.balance_pos
    exact clears_of_tokens_nonneg (by omega)

theorem add_clears (hn : 0 ≤ n.toInt) (hs : s.Clears b w) : (s.add b n).Clears b w := by
  rcases add_cases s b hn with ⟨-, tokens, -⟩ | ⟨below, tokens, -⟩
  · have hceiling : 0 < b.ceiling.toInt := b.capacity.balance_pos
    exact clears_of_tokens_nonneg (by rw [tokens]; omega)
  · have hgain := mul_nonneg (Int.natCast_nonneg b.period.toNat) hn
    unfold Clears at hs ⊢
    rw [add_worth_eq hn (by omega)]
    linarith

theorem le_consume_worth (hn : 0 ≤ n.toInt) :
    s.worth b - b.period.toNat * n.toInt ≤ (s.consume n).worth b := by
  have htokens : s.tokens.toInt - n.toInt ≤ (s.consume n).tokens.toInt := by
    have hhi := s.tokens.toInt_lt
    have hsub := Balance.toInt_sub s.tokens n
    rw [consume, hsub]
    omega
  have hmul := mul_le_mul_of_nonneg_left htokens (Int.natCast_nonneg b.period.toNat)
  rw [worth, worth, consume_carry]
  linarith [mul_sub (b.period.toNat : Int) s.tokens.toInt n.toInt]

theorem consume_clears (hn : 0 ≤ n.toInt)
    (h : b.period.toNat * n.toInt ≤ s.worth b + w * b.refill.toNat) :
    (s.consume n).Clears b w := by
  have hworth := le_consume_worth (s := s) (b := b) hn
  unfold Clears
  linarith

end Slot

namespace Account

def Clears (a : Account) (w : Nat) : Prop := ∀ i l s, a.At i l s → s.Clears l w

variable {a a' : Account} {n : Balance} {d : Nanos} {r : Request} {reading : UInt64}
  {answer : Answer} {w w' : Nat}

theorem Clears.mono (h : a.Clears w) (hw : w ≤ w') : a.Clears w' :=
  fun i l s hat => (h i l s hat).mono hw

theorem new_clears (c : Configuration) (now : UInt64) (w : Nat) : (new c now).Clears w := by
  intro i l s hat
  obtain ⟨-, rfl⟩ := new_at.mp hat
  exact Slot.new_clears l now

theorem Refills.clears (h : a.Refills reading a') (ha : a.Clears w) : a'.Clears w := by
  intro i l s' hat'
  obtain ⟨s, hat, hr⟩ := h.slots hat'
  exact hr.clears (ha i l s hat)

theorem add_clears (n : Amount) (ha : a.Clears w) : (a.add n.balance).Clears w := by
  intro i l s' hat'
  obtain ⟨s, hat, rfl⟩ := add_at.mp hat'
  exact Slot.add_clears n.balance_pos.le (ha i l s hat)

/-- The wait for no tokens at all is the time that clears every debt. -/
theorem toNat_delay_zero_le_iff (hc : ∀ i l s, a.At i l s → s.carry.toNat < l.period.toNat)
    (hw : w < 2 ^ 64 - 1) : (a.delay 0).val.toNat ≤ w ↔ a.Clears w := by
  rw [toNat_delay_le a 0 (by omega)]
  refine forall₄_congr fun i l s hat => ?_
  rw [Slot.toNat_delay_le_iff_worth (hc i l s hat) hw, Int64.toInt_zero, mul_zero]
  rfl

/-- Debts that a wait of `W` nanoseconds pays for: no slot owes more than comes back in it, a slot to
which nothing comes back owes nothing, and so that wait is enough for all of them. -/
structure OwesWithin (a : Account) (W : Nat) : Prop where
  worth : ∀ i l s, a.At i l s →
    -(W * l.refill.toNat : Int) ≤ l.period.toNat * s.tokens.toInt + s.carry.toNat
  unrefilled : ∀ i l s, a.At i l s → l.refill = 0 → 0 ≤ s.tokens.toInt
  delay : (a.delay 0).val.toNat ≤ W

theorem Clears.owesWithin (h : a.Clears w)
    (hc : ∀ i l s, a.At i l s → s.carry.toNat < l.period.toNat) : a.OwesWithin w where
  worth := by
    intro i l s hat
    have hclears := h i l s hat
    rw [Slot.Clears, Slot.worth] at hclears
    linarith
  unrefilled := fun i l s hat hr => (h i l s hat).tokens_nonneg hr (hc i l s hat)
  delay := by
    have hlt := (a.delay 0).val.toNat_lt
    by_cases hlong : w < 2 ^ 64 - 1
    · exact (toNat_delay_zero_le_iff hc hlong).mpr h
    · omega

/-- The delay of a grant clears all that the slots owe after it, earlier debts included. -/
theorem clears_of_grant (hp : a.Paired)
    (hc : ∀ i l s, a.At i l s → s.carry.toNat < l.period.toNat) (hn : 0 < n.toInt)
    (grants : r.Grants a n d) : (a.consume n).Clears d.val.toNat := by
  have hends := grants.ends hp
  have hdelay := grants.delay_eq hp
  have hlt := d.val.toNat_lt
  rw [hdelay, Nanos.isInfinite_iff] at hends
  have hslots := (toNat_delay_le a n hlt).mp (by rw [hdelay])
  intro i l s' hat'
  obtain ⟨s, hat, rfl⟩ := consume_at.mp hat'
  apply Slot.consume_clears hn.le
  exact (Slot.toNat_delay_le_iff_worth (hc i l s hat) (by omega)).mp (hslots i l s hat)

/-- A call that waits for no longer than `w` leaves debts that `w` clears, if it finds such. -/
theorem Commits.clears (h : a.Commits r reading answer a') (ha : a.Steady)
    (keeps : ∀ c, r ≠ .replace c)
    (patience : ∀ n maxWait, r = .reserve n maxWait → maxWait.val.toNat ≤ w)
    (hclears : a.Clears w) : a'.Clears w := by
  obtain ⟨work, refilled, published, -⟩ := h
  have hr := refills_of_ok refilled
  have hp := hr.paired ha.paired
  have hwork := hr.clears hclears
  have hcarry : ∀ i l s, work.At i l s → s.carry.toNat < l.period.toNat :=
    fun _ _ _ => hr.carry_lt fun _ => ha.carry_lt
  by_cases gives : ∃ n, r = .add n
  · obtain ⟨n, rfl⟩ := gives
    cases published
    exact add_clears n hwork
  · obtain ⟨n, d, hn, rfl, hgrant, grants⟩ :=
      Request.exists_grant hp published (fun n hadd => gives ⟨n, hadd⟩) keeps
    exact (clears_of_grant hp hcarry hn grants).mono (Request.grant_le hgrant patience)

end Account

namespace Edition.Chain

variable {e e' : Edition} {log : List Commit} {w : Nat}

theorem clears (h : e.Chain log e') (he : e.account.Steady) (keeps : ∀ x ∈ log, x.Keeps)
    (patience : ∀ x ∈ log, ∀ n maxWait, x.request = .reserve n maxWait → maxWait.val.toNat ≤ w)
    (hclears : e.account.Clears w) : e'.account.Clears w := by
  induction h with
  | nil => exact hclears
  | cons commits _ _ ih =>
    obtain ⟨first, keeps⟩ := List.forall_mem_cons.mp keeps
    obtain ⟨waits, patience⟩ := List.forall_mem_cons.mp patience
    exact ih (he.commit commits first) keeps patience (commits.clears he first waits hclears)

end Edition.Chain

namespace World

open Happening

def Patience (ms : List Move) (W : Nat) : Prop :=
  ∀ k n maxWait t, Move.call k (.reserve n maxWait) t ∈ ms → maxWait.val.toNat ≤ W

/-- Bounded debt, for every run that replaces no configuration: what is published keeps one slot for
each limit, and its debts stay within the longest wait of a reservation. -/
theorem debt_bounded (s : Strategy) (c : Configuration) (now : UInt64) (ms : List Move)
    (hs : s = .unshared → (new s c now).Undisturbed ms) (hms : Unreplaced ms) {W : Nat}
    (hW : Patience ms W) :
    ((new s c now).run ms).1.published.account.configuration = c ∧
      ((new s c now).run ms).1.published.account.Paired ∧
      ((new s c now).run ms).1.published.account.OwesWithin W := by
  have hchain := new_chain hs (le_refl ms.length)
  have keeps := keeps_of_unreplaced hs hms
  have hnew : (Account.new c now).Steady := .new c now
  rw [seen_length, after_length] at hchain
  have hsteady := hchain.steady hnew keeps
  have hclears := hchain.clears hnew keeps
    (fun x hx n maxWait hrequest => hW _ n maxWait _ (hrequest ▸ exists_call_new hs hx))
    (Account.new_clears c now W)
  exact ⟨hchain.configuration_eq hnew keeps, hsteady.paired,
    hclears.owesWithin fun _ _ _ => hsteady.carry_lt⟩

/-- Ten tokens are there, and nobody may wait for longer than half a second. Caller 0 borrows seven,
caller 1 loses the race to it and borrows two more, and caller 2 is refused. -/
def borrowed : List Move :=
  [.call 0 (.reserve ⟨17, by decide⟩ ⟨500000000⟩) 0, .load 0,
    .call 1 (.reserve ⟨2, by decide⟩ ⟨500000000⟩) 0, .load 1, .attempt 0, .attempt 1, .attempt 1] ++
  Move.whole 2 (.reserve ⟨2, by decide⟩ ⟨400000000⟩) 0

theorem debt_bounded_borrowed :
    answers ((new .locked (.single halfFull (by decide)) 0).run borrowed).2 =
        [.wait ⟨350000000⟩, .wait ⟨450000000⟩, .wait .infinite] ∧
      ∃ a, a = ((new .locked (.single halfFull (by decide)) 0).run borrowed).1.published.account ∧
        a.At 0 halfFull ⟨-9, 0, 0⟩ ∧ a.OwesWithin 500000000 := by
  have hms : Unreplaced borrowed := by
    intro k c t h
    simp [borrowed, Move.whole] at h
  have hW : Patience borrowed 500000000 := by
    intro k n maxWait t h
    simp only [borrowed, Move.whole, List.cons_append, List.nil_append, List.mem_cons, Move.call.injEq,
      Request.reserve.injEq, reduceCtorEq, List.not_mem_nil, false_or, or_false] at h
    rcases h with ⟨-, ⟨-, rfl⟩, -⟩ | ⟨-, ⟨-, rfl⟩, -⟩ | ⟨-, ⟨-, rfl⟩, -⟩ <;> decide
  obtain ⟨-, -, howes⟩ := debt_bounded .locked (.single halfFull (by decide)) 0 borrowed
    (fun h => by cases h) hms hW
  have hat : ((new .locked (.single halfFull (by decide)) 0).run borrowed).1.published.account.At 0
      halfFull ⟨-9, 0, 0⟩ := by
    constructor <;> decide +kernel
  exact ⟨by decide +kernel, _, rfl, hat, howes⟩

end World
end Throttle
