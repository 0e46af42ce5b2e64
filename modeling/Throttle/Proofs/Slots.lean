import Throttle.Proofs.Words
import Throttle.Slot

/-! One slot under a limit that time can pass for. Its worth, counted in tokens times
nanoseconds, joins the balance and the carry: time adds to it exactly what the limit gives, and
only a full slot loses any. -/

namespace Throttle
namespace Slot

/-- The nanoseconds that a reading brings beyond those already turned into tokens. -/
def elapsed (s : Slot) (now : UInt64) : Nat := now.toNat - s.lastRefill.toNat

/-- What these nanoseconds and the carry come to, in tokens times nanoseconds. -/
def accrued (s : Slot) (b : Bandwidth) (now : UInt64) : Nat :=
  s.elapsed now * b.refill.toNat + s.carry.toNat

theorem elapsed_lt (s : Slot) (now : UInt64) : s.elapsed now < 2 ^ 64 := by
  have := now.toNat_lt
  unfold elapsed; omega

theorem toNat_ofNat_elapsed (s : Slot) (now : UInt64) :
    (UInt64.ofNat (now.toNat - s.lastRefill.toNat)).toNat = s.elapsed now :=
  UInt64.toNat_ofNat'.trans (Nat.mod_eq_of_lt (s.elapsed_lt now))

theorem accrued_cast (s : Slot) (b : Bandwidth) (now : UInt64) :
    (s.accrued b now : Int) = s.elapsed now * b.refill.toNat + s.carry.toNat := by
  unfold accrued; push_cast; rfl

inductive Refills (s : Slot) (b : Bandwidth) (now : UInt64) (s' : Slot) : Prop
  | full (above : b.ceiling.toInt ≤ s.tokens.toInt)
      (last : s'.lastRefill.toNat = max s.lastRefill.toNat now.toNat) (tokens : s'.tokens = b.ceiling)
      (carry : s'.carry = 0)
  | idle (below : s.tokens.toInt < b.ceiling.toInt) (none : s.elapsed now = 0 ∨ b.refill = 0)
      (last : s'.lastRefill.toNat = max s.lastRefill.toNat now.toNat) (tokens : s'.tokens = s.tokens)
      (carry : s'.carry = s.carry)
  | filled (below : s.tokens.toInt < b.ceiling.toInt) (some : s.elapsed now ≠ 0 ∧ b.refill ≠ 0)
      (enough : b.ceiling.toInt ≤ s.tokens.toInt + (s.accrued b now / b.period.toNat : Nat))
      (last : s'.lastRefill.toNat = max s.lastRefill.toNat now.toNat) (tokens : s'.tokens = b.ceiling)
      (carry : s'.carry = 0)
  | grown (below : s.tokens.toInt < b.ceiling.toInt) (some : s.elapsed now ≠ 0 ∧ b.refill ≠ 0)
      (short : s.tokens.toInt + (s.accrued b now / b.period.toNat : Nat) < b.ceiling.toInt)
      (last : s'.lastRefill.toNat = max s.lastRefill.toNat now.toNat)
      (tokens : s'.tokens.toInt = s.tokens.toInt + (s.accrued b now / b.period.toNat : Nat))
      (carry : s'.carry.toNat = s.accrued b now % b.period.toNat)

theorem ok_bind {α β : Type} (a : α) (f : α → Except Fault β) : (Except.ok a >>= f) = f a := rfl

/-- No step of an accrual below the ceiling leaves its range. -/
theorem accrue_ok {s : Slot} {b : Bandwidth} (e : UInt64) (hb : b.period ≠ 0)
    (below : s.tokens.toInt < b.ceiling.toInt) :
    s.accrue b e = .ok
      (if (b.ceiling.toInt - s.tokens.toInt).toNat ≤
          (e.toNat * b.refill.toNat + s.carry.toNat) / b.period.toNat then s.fillTo b.ceiling
      else { s with
        tokens := (Balance.ofInt? (s.tokens.toInt +
          ((e.toNat * b.refill.toNat + s.carry.toNat) / b.period.toNat : Nat))).getD b.ceiling
        carry := UInt64.ofNat ((e.toNat * b.refill.toNat + s.carry.toNat) % b.period.toNat) }) := by
  have hp := b.period.toNat_lt
  have hlo := s.tokens.le_toInt
  have hhi := b.ceiling.toInt_lt
  have hb : b.period.toNat ≠ 0 := fun h => hb (UInt64.toNat_inj.mp h)
  have hfits := toNat_mul_add_lt e b.refill s.carry
  have hm : (e.toNat * b.refill.toNat + s.carry.toNat) % b.period.toNat < 2 ^ 64 :=
    (Nat.mod_lt _ (by omega)).trans hp
  unfold accrue
  rw [Wide.unsigned_ok (by omega), ok_bind, Wide.unsigned_ok (by omega), ok_bind,
    Wide.divMod_ok hb, ok_bind]
  generalize (e.toNat * b.refill.toNat + s.carry.toNat) / b.period.toNat = whole
  generalize (e.toNat * b.refill.toNat + s.carry.toNat) % b.period.toNat = rest at hm ⊢
  dsimp only
  rw [Wide.signed_ok (by omega) (by omega), ok_bind, Wide.magnitude_ok (by omega), ok_bind]
  split
  · rfl
  · rw [Wide.signed_ok (by omega) (by omega), ok_bind, Wide.signed_ok (by omega) (by omega), ok_bind,
      Wide.word_ok (by omega)]
    rfl

theorem refill_ok {b : Bandwidth} (hb : b.period ≠ 0) (s : Slot) (now : UInt64) :
    ∃ s', s.refill b now = .ok s' ∧ s.Refills b now s' := by
  have he := s.toNat_ofNat_elapsed now
  have hz : UInt64.ofNat (now.toNat - s.lastRefill.toNat) = 0 ↔ s.elapsed now = 0 := by
    rw [← he, ← UInt64.toNat_inj]; rfl
  have hlast := UInt64.toNat_max s.lastRefill now
  unfold refill
  simp only [Int64.le_iff_toInt_le, hz]
  split
  · next above => exact ⟨_, rfl, .full above hlast rfl rfl⟩
  · next below =>
    have below : s.tokens.toInt < b.ceiling.toInt := by omega
    split
    · next none => exact ⟨_, rfl, .idle below none hlast rfl rfl⟩
    · next some =>
      have hp : b.period.toNat ≠ 0 := fun h => hb (UInt64.toNat_inj.mp h)
      have hlo := s.tokens.le_toInt
      have hhi := b.ceiling.toInt_lt
      have hacc := accrue_ok (s := { s with lastRefill := max s.lastRefill now })
        (UInt64.ofNat (now.toNat - s.lastRefill.toNat)) hb below
      have hsum : s.elapsed now * b.refill.toNat + s.carry.toNat = s.accrued b now := rfl
      have hwhole : (0 : Int) ≤ (s.accrued b now / b.period.toNat : Nat) := Int.natCast_nonneg _
      dsimp only at hacc
      rw [he, hsum] at hacc
      rw [hacc]
      refine ⟨_, rfl, ?_⟩
      have some : s.elapsed now ≠ 0 ∧ b.refill ≠ 0 := not_or.mp some
      split
      · next enough => exact .filled below some (by omega) hlast rfl rfl
      · next short =>
        refine .grown below some (by omega) hlast ?_ ?_
        · exact Balance.toInt_ofInt?_getD (by omega) (by omega) _
        · have := Nat.mod_lt (s.accrued b now) (Nat.pos_of_ne_zero hp)
          have := b.period.toNat_lt
          exact (UInt64.toNat_ofNat' ..).trans (Nat.mod_eq_of_lt (by omega))

theorem refills_of_ok {s s' : Slot} {b : Bandwidth} {now : UInt64} (hb : b.period ≠ 0)
    (h : s.refill b now = .ok s') : s.Refills b now s' := by
  obtain ⟨s₁, h₁, hr⟩ := refill_ok hb s now
  rw [h] at h₁
  cases h₁
  exact hr

/-- Balance and carry together, in tokens times nanoseconds. -/
def worth (s : Slot) (b : Bandwidth) : Int := b.period.toNat * s.tokens.toInt + s.carry.toNat

namespace Refills

variable {s s' : Slot} {b : Bandwidth} {now : UInt64}

theorem lastRefill_eq (h : s.Refills b now s') :
    s'.lastRefill.toNat = max s.lastRefill.toNat now.toNat := by
  cases h <;> assumption

theorem tokens_le (h : s.Refills b now s') : s'.tokens.toInt ≤ b.ceiling.toInt := by
  cases h with
  | full _ _ tokens _ => rw [tokens]
  | idle below _ _ tokens _ => rw [tokens]; omega
  | filled _ _ _ _ tokens _ => rw [tokens]
  | grown _ _ short _ tokens _ => omega

theorem carry_eq_zero (h : s.Refills b now s') (full : s'.tokens = b.ceiling) : s'.carry = 0 := by
  cases h with
  | full _ _ _ carry => exact carry
  | idle below _ _ tokens _ => rw [← tokens, full] at below; exact absurd below (lt_irrefl _)
  | filled _ _ _ _ _ carry => exact carry
  | grown _ _ short _ tokens _ =>
    rw [← tokens, full] at short
    exact absurd short (lt_irrefl _)

/-- A carry of less than a token joins the time that passed, and the ceiling cuts what comes of both. -/
theorem tokens_eq (h : s.Refills b now s') (hc : s.carry.toNat < b.period.toNat) :
    s'.tokens.toInt =
      min b.ceiling.toInt (s.tokens.toInt + (s.accrued b now / b.period.toNat : Nat)) := by
  cases h with
  | full above _ tokens _ =>
    rw [tokens, min_eq_left (above.trans (Int.le_add_of_nonneg_right (Int.natCast_nonneg _)))]
  | idle below none _ tokens _ =>
    have hzero : s.accrued b now = s.carry.toNat := by
      unfold accrued
      rcases none with h | h <;> simp [h]
    rw [tokens, hzero, Nat.div_eq_of_lt hc]
    omega
  | filled _ _ enough _ tokens _ => rw [tokens]; omega
  | grown _ _ short _ tokens _ => rw [tokens]; omega

theorem carry_lt (h : s.Refills b now s') (hc : s.carry.toNat < b.period.toNat) :
    s'.carry.toNat < b.period.toNat := by
  cases h with
  | full _ _ _ carry => rw [carry]; exact Nat.lt_of_le_of_lt (Nat.zero_le _) hc
  | idle _ _ _ _ carry => rwa [carry]
  | filled _ _ _ _ _ carry => rw [carry]; exact Nat.lt_of_le_of_lt (Nat.zero_le _) hc
  | grown _ _ _ _ _ carry => rw [carry]; exact Nat.mod_lt _ (by omega)

theorem elapsed_eq (h : s.Refills b now s') :
    (s.elapsed now : Int) = s'.lastRefill.toNat - s.lastRefill.toNat := by
  have := h.lastRefill_eq
  unfold elapsed; omega

theorem worth_of_grown (last : (s.elapsed now : Int) = s'.lastRefill.toNat - s.lastRefill.toNat)
    (tokens : s'.tokens.toInt = s.tokens.toInt + (s.accrued b now / b.period.toNat : Nat))
    (carry : s'.carry.toNat = s.accrued b now % b.period.toNat) :
    s'.worth b =
      s.worth b + (s'.lastRefill.toNat - s.lastRefill.toNat) * b.refill.toNat := by
  have hdiv : (b.period.toNat : Int) * (s.accrued b now / b.period.toNat : Nat) +
      (s.accrued b now % b.period.toNat : Nat) = s.accrued b now := by
    exact_mod_cast Nat.div_add_mod (s.accrued b now) b.period.toNat
  have hacc := s.accrued_cast b now
  unfold worth
  rw [← last, tokens, carry]
  linarith [mul_add (b.period.toNat : Int) s.tokens.toInt
    (s.accrued b now / b.period.toNat : Nat)]

/-- Below the ceiling nothing is lost: time adds to the worth all that the limit gives for it. -/
theorem worth_eq (h : s.Refills b now s') (below : s'.tokens.toInt < b.ceiling.toInt) :
    s'.worth b =
      s.worth b + (s'.lastRefill.toNat - s.lastRefill.toNat) * b.refill.toNat := by
  have last := h.elapsed_eq
  cases h with
  | full _ _ tokens _ => rw [tokens] at below; omega
  | idle _ none _ tokens carry =>
    have hzero : (s.elapsed now : Int) * b.refill.toNat = 0 := by
      rcases none with h | h <;> simp [h]
    rw [← last, hzero, worth, worth, tokens, carry, add_zero]
  | filled _ _ _ _ tokens _ => rw [tokens] at below; omega
  | grown _ _ _ _ tokens carry => exact worth_of_grown last tokens carry

theorem worth_le (h : s.Refills b now s') :
    s'.worth b ≤
      s.worth b + (s'.lastRefill.toNat - s.lastRefill.toNat) * b.refill.toNat := by
  by_cases below : s'.tokens.toInt < b.ceiling.toInt
  · exact (h.worth_eq below).le
  have last := h.elapsed_eq
  have hgain : (0 : Int) ≤ s.elapsed now * b.refill.toNat := by positivity
  have hperiod : (0 : Int) ≤ b.period.toNat := Int.natCast_nonneg _
  cases h with
  | full above _ tokens carry =>
    have := mul_le_mul_of_nonneg_left above hperiod
    unfold worth
    rw [← last, tokens, carry]
    simp only [UInt64.toNat_zero]
    omega
  | idle hlt _ _ tokens _ => rw [tokens] at below; omega
  | filled _ _ enough _ tokens carry =>
    have := mul_le_mul_of_nonneg_left enough hperiod
    have hdiv : (b.period.toNat : Int) * (s.accrued b now / b.period.toNat : Nat) ≤
        s.accrued b now := by
      exact_mod_cast Nat.mul_div_le (s.accrued b now) b.period.toNat
    have hacc := s.accrued_cast b now
    rw [mul_add] at this
    unfold worth
    rw [← last, tokens, carry]
    simp only [UInt64.toNat_zero]
    omega
  | grown _ _ short _ tokens _ => omega

end Refills

variable {s : Slot} {b : Bandwidth} {n : Balance}

@[simp] theorem add_lastRefill (s : Slot) (b : Bandwidth) (n : Balance) :
    (s.add b n).lastRefill = s.lastRefill := by
  unfold add fillTo; dsimp only; split <;> rfl

@[simp] theorem consume_lastRefill (s : Slot) (n : Balance) :
    (s.consume n).lastRefill = s.lastRefill := rfl

@[simp] theorem consume_carry (s : Slot) (n : Balance) : (s.consume n).carry = s.carry := rfl

theorem add_cases (s : Slot) (b : Bandwidth) (hn : 0 ≤ n.toInt) :
    (b.ceiling.toInt ≤ s.tokens.toInt + n.toInt ∧ (s.add b n).tokens = b.ceiling ∧
      (s.add b n).carry = 0) ∨
    (s.tokens.toInt + n.toInt < b.ceiling.toInt ∧
      (s.add b n).tokens.toInt = s.tokens.toInt + n.toInt ∧ (s.add b n).carry = s.carry) := by
  have hsum := Balance.toInt_add s.tokens n
  have hlo := s.tokens.le_toInt
  have hhi := b.ceiling.toInt_lt
  unfold add
  simp only [Int64.le_iff_toInt_le]
  split
  · exact .inl ⟨by omega, rfl, rfl⟩
  · exact .inr ⟨by omega, by dsimp only; omega, rfl⟩

theorem add_carry_lt (hn : 0 ≤ n.toInt) (hc : s.carry.toNat < b.period.toNat) :
    (s.add b n).carry.toNat < b.period.toNat := by
  rcases add_cases s b hn with ⟨-, -, carry⟩ | ⟨-, -, carry⟩
  · rw [carry]; exact Nat.lt_of_le_of_lt (Nat.zero_le _) hc
  · rwa [carry]

theorem add_worth_eq (hn : 0 ≤ n.toInt) (below : (s.add b n).tokens.toInt < b.ceiling.toInt) :
    (s.add b n).worth b = s.worth b + b.period.toNat * n.toInt := by
  rcases add_cases s b hn with ⟨-, tokens, -⟩ | ⟨-, tokens, carry⟩
  · rw [tokens] at below; omega
  · rw [worth, worth, tokens, carry, mul_add]; omega

theorem add_worth_le (hn : 0 ≤ n.toInt) :
    (s.add b n).worth b ≤ s.worth b + b.period.toNat * n.toInt := by
  rcases add_cases s b hn with ⟨above, tokens, carry⟩ | ⟨below, tokens, -⟩
  · have := mul_le_mul_of_nonneg_left above (Int.natCast_nonneg b.period.toNat)
    rw [mul_add] at this
    rw [worth, worth, tokens, carry]
    simp only [UInt64.toNat_zero]
    omega
  · exact (add_worth_eq hn (by omega)).le

theorem consume_tokens (hn : 0 ≤ n.toInt) (room : -2 ^ 63 ≤ s.tokens.toInt - n.toInt) :
    (s.consume n).tokens.toInt = s.tokens.toInt - n.toInt := by
  have := Balance.toInt_sub s.tokens n
  have := s.tokens.toInt_lt
  unfold consume; dsimp only; omega

theorem consume_worth (hn : 0 ≤ n.toInt) (room : -2 ^ 63 ≤ s.tokens.toInt - n.toInt) :
    (s.consume n).worth b = s.worth b - b.period.toNat * n.toInt := by
  rw [worth, worth, consume_tokens hn room, consume_carry, mul_sub]; omega

/-- A slot that is charged at a reading is as it was at another one of the same time. -/
theorem Refills.refill_consume {s₁ : Slot} {t : UInt64} (h : s.Refills b t s₁) (hn : 0 < n.toInt) :
    (s₁.consume n).refill b t = .ok (s₁.consume n) := by
  have hlast := h.lastRefill_eq
  have hmax : max s₁.lastRefill t = s₁.lastRefill := by
    apply UInt64.toNat_inj.mp
    rw [UInt64.toNat_max]
    omega
  have elapsed : UInt64.ofNat (t.toNat - s₁.lastRefill.toNat) = 0 := by
    rw [Nat.sub_eq_zero_of_le (by omega)]
    rfl
  have below : ¬b.ceiling ≤ s₁.tokens.sub n := by
    have htokens := Balance.toInt_sub s₁.tokens n
    have hle := h.tokens_le
    have hceiling : 0 < b.ceiling.toInt := b.capacity.balance_pos
    rw [Int64.le_iff_toInt_le]
    omega
  simp only [refill, consume, elapsed, hmax, if_neg below, true_or, if_true]

theorem delay_of_le (h : n.toInt ≤ s.tokens.toInt) : s.delay b n = Nanos.zero := by
  rw [delay, if_pos (Int64.le_iff_toInt_le.mpr h)]

theorem delay_of_never (h : s.tokens.toInt < n.toInt) (hr : b.refill = 0) :
    s.delay b n = Nanos.infinite := by
  rw [delay, if_neg (by rw [Int64.le_iff_toInt_le]; omega), if_pos hr]

theorem due_cast (h : s.tokens.toInt ≤ n.toInt) : (n.toInt - s.tokens.toInt) * b.period.toNat =
    ((n.toInt - s.tokens.toInt).toNat * b.period.toNat : Nat) := by
  push_cast; rw [Int.toNat_of_nonneg (by omega)]

/-- However deep the debt and however long the period, what is owed fits 128 bits. -/
theorem due_lt (s : Slot) (b : Bandwidth) (n : Balance) :
    (n.toInt - s.tokens.toInt).toNat * b.period.toNat < 2 ^ 128 := by
  have hlo := s.tokens.le_toInt
  have hhi := n.toInt_lt
  have hp := b.period.toNat_lt
  have hprod : (n.toInt - s.tokens.toInt).toNat * b.period.toNat ≤ (2 ^ 64 - 1) * (2 ^ 64 - 1) :=
    Nat.mul_le_mul (by omega) (by omega)
  omega

/-- A slot that is short waits for what it owes less its carry, rounded up. -/
theorem toNat_delay (h : s.tokens.toInt < n.toInt) (hr : b.refill ≠ 0) :
    (s.delay b n).val.toNat =
      min (((n.toInt - s.tokens.toInt).toNat * b.period.toNat - s.carry.toNat + b.refill.toNat - 1) /
        b.refill.toNat) (2 ^ 64 - 1) := by
  rw [delay, if_neg (by rw [Int64.le_iff_toInt_le]; omega), if_neg hr,
    Wide.unsigned_ok (s.due_lt b n)]
  exact Nanos.toNat_ofNat _

theorem delay_isZero_iff : (s.delay b n).isZero ↔
    n.toInt ≤ s.tokens.toInt ∨
      b.refill ≠ 0 ∧ (n.toInt - s.tokens.toInt) * b.period.toNat ≤ s.carry.toNat := by
  by_cases h : n.toInt ≤ s.tokens.toInt
  · simp only [delay_of_le h, h, true_or, iff_true]; rfl
  by_cases hr : b.refill = 0
  · have hnever : s.delay b n = Nanos.infinite := delay_of_never (by omega) hr
    simp only [hnever, h, hr, ne_eq, not_true_eq_false, false_and, or_false, iff_false]
    decide
  have hpos : 0 < b.refill.toNat := Nat.pos_of_ne_zero fun h => hr (UInt64.toNat_inj.mp h)
  have hcast := due_cast (b := b) (not_le.mp h).le
  rw [Nanos.isZero_iff, toNat_delay (by omega) hr, hcast]
  generalize (n.toInt - s.tokens.toInt).toNat * b.period.toNat = due
  have hdiv : (due - s.carry.toNat + b.refill.toNat - 1) / b.refill.toNat = 0 ↔
      due ≤ s.carry.toNat := by
    rw [Nat.div_eq_zero_iff]; omega
  simp only [h, hr, false_or, ne_eq, not_false_eq_true, true_and]
  omega

theorem delay_isZero_iff_of_carry_lt (hc : s.carry.toNat < b.period.toNat) :
    (s.delay b n).isZero ↔ n.toInt ≤ s.tokens.toInt := by
  rw [delay_isZero_iff]
  refine ⟨fun h => ?_, .inl⟩
  rcases h with h | ⟨-, h⟩
  · exact h
  · by_contra hshort
    have howed : (1 : Int) ≤ n.toInt - s.tokens.toInt := by omega
    have := mul_le_mul_of_nonneg_right howed (Int.natCast_nonneg b.period.toNat)
    omega

/-- A wait is long enough when what comes back in it, with the carry, makes up what is owed. -/
theorem toNat_delay_le_iff {w : Nat} (hc : s.carry.toNat < b.period.toNat) (hw : w < 2 ^ 64 - 1) :
    (s.delay b n).val.toNat ≤ w ↔
      (n.toInt - s.tokens.toInt) * b.period.toNat ≤ (w * b.refill.toNat + s.carry.toNat : Nat) := by
  by_cases hle : n.toInt ≤ s.tokens.toInt
  · have := mul_nonneg (sub_nonneg.mpr hle) (Int.natCast_nonneg b.period.toNat)
    have hneg : (n.toInt - s.tokens.toInt) * b.period.toNat ≤ 0 := by linarith
    rw [delay_of_le hle]
    exact ⟨fun _ => hneg.trans (Int.natCast_nonneg _), fun _ => Nat.zero_le w⟩
  have hcast := due_cast (b := b) (not_le.mp hle).le
  rw [hcast, Int.ofNat_le]
  by_cases hr : b.refill = 0
  · have hone : 1 * b.period.toNat ≤ (n.toInt - s.tokens.toInt).toNat * b.period.toNat :=
      Nat.mul_le_mul_right _ (by omega)
    have hnever : Nanos.infinite.val.toNat = 2 ^ 64 - 1 := rfl
    rw [delay_of_never (by omega) hr, hnever, hr, UInt64.toNat_zero, Nat.mul_zero]
    omega
  have hpos : 0 < b.refill.toNat := Nat.pos_of_ne_zero fun h => hr (UInt64.toNat_inj.mp h)
  rw [toNat_delay (by omega) hr]
  generalize (n.toInt - s.tokens.toInt).toNat * b.period.toNat = due
  have hdiv : (due - s.carry.toNat + b.refill.toNat - 1) / b.refill.toNat ≤ w ↔
      due - s.carry.toNat ≤ w * b.refill.toNat := by
    rw [Nat.div_le_iff_le_mul_add_pred hpos, Nat.mul_comm w]
    omega
  omega

theorem toNat_delay_le_iff_worth {w : Nat} (hc : s.carry.toNat < b.period.toNat)
    (hw : w < 2 ^ 64 - 1) :
    (s.delay b n).val.toNat ≤ w ↔
      b.period.toNat * n.toInt ≤ s.worth b + w * b.refill.toNat := by
  rw [toNat_delay_le_iff hc hw, worth, sub_mul]
  push_cast
  rw [mul_comm (b.period.toNat : Int) n.toInt, mul_comm (b.period.toNat : Int) s.tokens.toInt]
  constructor <;> intro h <;> linarith

/-- A slot whose wait ends owes no more than comes back in the longest wait, beyond its carry. -/
theorem due_le_of_delay (h : ¬(s.delay b n).isInfinite) :
    n.toInt ≤ s.tokens.toInt ∨
      b.refill ≠ 0 ∧ (n.toInt - s.tokens.toInt) * b.period.toNat ≤
        (2 ^ 64 - 2) * b.refill.toNat + s.carry.toNat := by
  by_cases hle : n.toInt ≤ s.tokens.toInt
  · exact .inl hle
  by_cases hr : b.refill = 0
  · exact absurd (by rw [delay_of_never (by omega) hr]; rfl) h
  have hpos : 0 < b.refill.toNat := Nat.pos_of_ne_zero fun h => hr (UInt64.toNat_inj.mp h)
  have hcast := due_cast (b := b) (not_le.mp hle).le
  rw [Nanos.isInfinite_iff, toNat_delay (by omega) hr] at h
  rw [hcast]
  generalize (n.toInt - s.tokens.toInt).toNat * b.period.toNat = due at h ⊢
  have hlt : (due - s.carry.toNat + b.refill.toNat - 1) / b.refill.toNat < 2 ^ 64 - 1 := by omega
  rw [Nat.div_lt_iff_lt_mul hpos] at hlt
  refine .inr ⟨hr, ?_⟩
  omega

/-- Where a limit gives at most half a token in a nanosecond, a charge whose wait ends leaves the
balance in range: no debt is cut. -/
theorem room_of_delay (hrate : b.refill = 0 ∨ 2 * b.refill.toNat ≤ b.period.toNat)
    (hc : s.carry.toNat < b.period.toNat) (h : ¬(s.delay b n).isInfinite) :
    -2 ^ 63 ≤ s.tokens.toInt - n.toInt := by
  rcases due_le_of_delay h with hle | ⟨hr, hdue⟩
  · omega
  have hrate : (2 * b.refill.toNat : Int) ≤ b.period.toNat := by
    rcases hrate with h | h
    · exact absurd h hr
    · exact_mod_cast h
  have hc : (s.carry.toNat : Int) < b.period.toNat := by exact_mod_cast hc
  by_contra hlow
  have hdeep : (2 ^ 63 : Int) ≤ n.toInt - s.tokens.toInt := by omega
  have := mul_le_mul_of_nonneg_right hdeep (Int.natCast_nonneg b.period.toNat)
  omega

end Slot
end Throttle
