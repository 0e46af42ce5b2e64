import Mathlib.Algebra.Order.Floor.Div
import Throttle.Proofs.Slots

/-! Slots in numbers without bounds. What a slot does in words is what the same rules make of numbers
that never end: each step of the calculation fits the 128 bits that it is done in, what is narrowed fits
where it goes, and no way out for a result that does not fit is ever taken. -/

namespace Throttle

/-- The most tokens that a limit can hold: its capacity, as far as a balance counts it. -/
def Bandwidth.top (b : Bandwidth) : Int := min b.capacity.val.toNat (2 ^ 63 - 1)

theorem Bandwidth.toInt_ceiling (b : Bandwidth) : b.ceiling.toInt = b.top := b.capacity.toInt_balance

structure Figures where
  tokens : Int
  lastRefill : Nat
  carry : Nat
deriving DecidableEq

namespace Figures

/-- With `n` more tokens, as far as the limit allows. A full slot carries nothing. -/
def raise (f : Figures) (b : Bandwidth) (n carry : Nat) : Figures :=
  { f with
    tokens := min b.top (f.tokens + n)
    carry := if b.top ≤ f.tokens + n then 0 else carry }

def refill (f : Figures) (b : Bandwidth) (now : Nat) : Figures :=
  let elapsed := now - f.lastRefill
  let accrued := elapsed * b.refill.toNat + f.carry
  let f := { f with lastRefill := max f.lastRefill now }
  if elapsed = 0 ∨ b.refill.toNat = 0 then f.raise b 0 f.carry
  else f.raise b (accrued / b.period.toNat) (accrued % b.period.toNat)

def add (f : Figures) (b : Bandwidth) (n : Nat) : Figures := f.raise b n f.carry

def wait (f : Figures) (b : Bandwidth) (n : Int) : Nat :=
  ((n - f.tokens) * b.period.toNat - f.carry).toNat ⌈/⌉ b.refill.toNat

/-- How long until there are `n` tokens, if there ever are. The largest word is no wait that ends, nor is
anything beyond it. -/
def delay? (f : Figures) (b : Bandwidth) (n : Int) : Option Nat :=
  if n ≤ f.tokens then some 0
  else if b.refill.toNat = 0 then none
  else if f.wait b n < 2 ^ 64 - 1 then some (f.wait b n)
  else none

variable {tokens : Int} {last kept n carry : Nat} {b : Bandwidth}

theorem raise_full (full : b.top ≤ tokens + n) :
    raise ⟨tokens, last, kept⟩ b n carry = ⟨b.top, last, 0⟩ := by
  rw [raise, min_eq_left full, if_pos full]

theorem raise_short (short : tokens + n < b.top) :
    raise ⟨tokens, last, kept⟩ b n carry = ⟨tokens + n, last, carry⟩ := by
  rw [raise, min_eq_right short.le, if_neg (not_le.mpr short)]

end Figures

theorem Nanos.finite?_eq {d : Nanos} {w : Nat} (h : d.val.toNat = min w (2 ^ 64 - 1)) :
    d.finite? = if w < 2 ^ 64 - 1 then some w else none := by
  unfold finite?
  split
  · next infinite =>
    rw [isInfinite_iff] at infinite
    rw [if_neg (by omega)]
  · next ends =>
    rw [isInfinite_iff] at ends
    rw [if_pos (by omega), h, min_eq_left (by omega)]

namespace Slot

def figures (s : Slot) : Figures := ⟨s.tokens.toInt, s.lastRefill.toNat, s.carry.toNat⟩

variable {s s' : Slot} {b : Bandwidth} {now : UInt64} {n : Balance}

theorem Refills.figures_eq (h : s.Refills b now s') : s'.figures = s.figures.refill b now.toNat := by
  have hzero : b.refill.toNat = 0 ↔ b.refill = 0 := by rw [← UInt64.toNat_inj]; rfl
  have helapsed : now.toNat - s.lastRefill.toNat = s.elapsed now := rfl
  have haccrued : s.elapsed now * b.refill.toNat + s.carry.toNat = s.accrued b now := rfl
  have htop := b.toInt_ceiling
  simp only [figures, Figures.refill, helapsed, haccrued, hzero]
  cases h with
  | full above last tokens carry =>
    rw [htop] at above
    -- a full slot stays so, whatever time brings
    have hfull : ∀ n rest, Figures.raise
        ⟨s.tokens.toInt, max s.lastRefill.toNat now.toNat, s.carry.toNat⟩ b n rest =
          ⟨b.top, max s.lastRefill.toNat now.toNat, 0⟩ :=
      fun n rest => Figures.raise_full (by omega)
    rw [last, tokens, carry, htop, hfull, hfull, ite_self]
    rfl
  | idle below none last tokens carry =>
    rw [htop] at below
    rw [if_pos none, Figures.raise_short (by omega), last, tokens, carry]
    simp
  | filled below some enough last tokens carry =>
    rw [htop] at enough
    rw [if_neg (not_or.mpr some), Figures.raise_full enough, last, tokens, carry, htop]
    rfl
  | grown below some short last tokens carry =>
    rw [htop] at short
    rw [if_neg (not_or.mpr some), Figures.raise_short short, last, tokens, carry]

theorem figures_add (hn : 0 ≤ n.toInt) : (s.add b n).figures = s.figures.add b n.toInt.toNat := by
  have htop := b.toInt_ceiling
  have hcast : (n.toInt.toNat : Int) = n.toInt := Int.toNat_of_nonneg hn
  rw [figures, add_lastRefill, Figures.add]
  rcases add_cases s b hn with ⟨full, tokens, carry⟩ | ⟨short, tokens, carry⟩
  · rw [Figures.raise_full (by rw [hcast]; exact htop ▸ full), tokens, carry, htop]
    rfl
  · rw [Figures.raise_short (by rw [hcast]; exact htop ▸ short), tokens, carry, hcast]
    rfl

theorem toNat_delay_eq_wait (short : s.tokens.toInt < n.toInt) (comes : b.refill ≠ 0) :
    (s.delay b n).val.toNat = min (s.figures.wait b n.toInt) (2 ^ 64 - 1) := by
  have hdue : ((n.toInt - s.tokens.toInt) * b.period.toNat - s.carry.toNat).toNat =
      (n.toInt - s.tokens.toInt).toNat * b.period.toNat - s.carry.toNat := by
    rw [due_cast short.le]
    omega
  rw [toNat_delay short comes, Figures.wait, figures, hdue, Nat.ceilDiv_eq_add_pred_div]

theorem finite?_delay (s : Slot) (b : Bandwidth) (n : Balance) :
    (s.delay b n).finite? = s.figures.delay? b n.toInt := by
  have hzero : b.refill.toNat = 0 ↔ b.refill = 0 := by rw [← UInt64.toNat_inj]; rfl
  simp only [Figures.delay?, hzero]
  split
  · next there =>
    rw [delay_of_le there]
    rfl
  next short =>
  split
  · next never =>
    rw [delay_of_never (not_le.mp short) never]
    rfl
  · next comes => exact Nanos.finite?_eq (toNat_delay_eq_wait (not_le.mp short) comes)

structure StaysInRange (s : Slot) (b : Bandwidth) (now : UInt64) (n : Balance) : Prop where
  elapsed : (UInt64.ofNat (now.toNat - s.lastRefill.toNat)).toNat = s.elapsed now
  gained : Wide.unsigned (s.elapsed now * b.refill.toNat) = .ok (s.elapsed now * b.refill.toNat)
  accrued : Wide.unsigned (s.elapsed now * b.refill.toNat + s.carry.toNat) = .ok (s.accrued b now)
  /-- Less than a period is left over, so it is a word. -/
  rest : ∃ carry, Wide.word (s.accrued b now % b.period.toNat) = .ok carry ∧
    carry.toNat = s.accrued b now % b.period.toNat
  /-- Below the ceiling there is room, which is a number without a sign. -/
  room : s.tokens.toInt < b.ceiling.toInt → ∃ room,
    Wide.signed (b.ceiling.toInt - s.tokens.toInt) = .ok (b.ceiling.toInt - s.tokens.toInt) ∧
      Wide.magnitude (b.ceiling.toInt - s.tokens.toInt) = .ok room ∧
      room = b.ceiling.toInt - s.tokens.toInt
  /-- Tokens that there is room for can be added to the balance, and the sum is a balance. -/
  sum : s.tokens.toInt + (s.accrued b now / b.period.toNat : Nat) < b.ceiling.toInt →
    Wide.signed (s.accrued b now / b.period.toNat : Nat) = .ok (s.accrued b now / b.period.toNat : Nat) ∧
      Wide.signed (s.tokens.toInt + (s.accrued b now / b.period.toNat : Nat)) =
        .ok (s.tokens.toInt + (s.accrued b now / b.period.toNat : Nat)) ∧
      ∃ tokens, Balance.ofInt? (s.tokens.toInt + (s.accrued b now / b.period.toNat : Nat)) = some tokens ∧
        tokens.toInt = s.tokens.toInt + (s.accrued b now / b.period.toNat : Nat)
  /-- What a slot owes is a number without a sign, and so is the time that it owes it for. -/
  due : s.tokens.toInt < n.toInt → ∃ owed,
    Wide.signed (n.toInt - s.tokens.toInt) = .ok (n.toInt - s.tokens.toInt) ∧
      Wide.magnitude (n.toInt - s.tokens.toInt) = .ok owed ∧ owed = n.toInt - s.tokens.toInt ∧
      Wide.unsigned (owed * b.period.toNat) = .ok (owed * b.period.toNat)

theorem staysInRange (hb : b.period ≠ 0) (s : Slot) (now : UInt64) (n : Balance) :
    s.StaysInRange b now n := by
  have hp : b.period.toNat ≠ 0 := fun h => hb (UInt64.toNat_inj.mp h)
  have hlo := s.tokens.le_toInt
  have hhi := b.ceiling.toInt_lt
  have hn := n.toInt_lt
  have helapsed := s.toNat_ofNat_elapsed now
  have haccrued : s.accrued b now < 2 ^ 128 := by
    have := toNat_mul_add_lt (UInt64.ofNat (now.toNat - s.lastRefill.toNat)) b.refill s.carry
    rwa [helapsed] at this
  have hgained : s.elapsed now * b.refill.toNat ≤ s.accrued b now := Nat.le_add_right ..
  have hrest : s.accrued b now % b.period.toNat < 2 ^ 64 :=
    (Nat.mod_lt _ (Nat.pos_of_ne_zero hp)).trans b.period.toNat_lt
  refine ⟨helapsed, Wide.unsigned_ok (by omega), Wide.unsigned_ok haccrued,
    ⟨_, Wide.word_ok hrest, ?_⟩, fun below => ?_, fun short => ?_, fun short => ?_⟩
  · exact UInt64.toNat_ofNat'.trans (Nat.mod_eq_of_lt hrest)
  · exact ⟨_, Wide.signed_ok (by omega) (by omega), Wide.magnitude_ok (by omega),
      Int.toNat_of_nonneg (by omega)⟩
  · have hwhole : (0 : Int) ≤ (s.accrued b now / b.period.toNat : Nat) := Int.natCast_nonneg _
    exact ⟨Wide.signed_ok (by omega) (by omega), Wide.signed_ok (by omega) (by omega),
      Balance.exists_ofInt?_eq_some (by omega) (by omega)⟩
  · exact ⟨_, Wide.signed_ok (by omega) (by omega), Wide.magnitude_ok (by omega),
      Int.toNat_of_nonneg (by omega), Wide.unsigned_ok (s.due_lt b n)⟩

/-- All that a slot does is as exact as if its numbers had no bounds. -/
structure Exact (s : Slot) (b : Bandwidth) (now : UInt64) (n : Balance) : Prop where
  refills : ∃ s', s.refill b now = .ok s' ∧ s'.figures = s.figures.refill b now.toNat
  adds : 0 ≤ n → (s.add b n).figures = s.figures.add b n.toInt.toNat
  delays : (s.delay b n).finite? = s.figures.delay? b n.toInt
  steps : s.StaysInRange b now n

/-- Under any limit that time can pass for, whatever the slot holds and carries, a slot calculates
exactly. -/
theorem calculates_exactly (hb : b.period ≠ 0) (s : Slot) (now : UInt64) (n : Balance) :
    s.Exact b now n where
  refills := by
    obtain ⟨s', hs', hr⟩ := refill_ok hb s now
    exact ⟨s', hs', hr.figures_eq⟩
  adds := fun hn => figures_add (by rwa [Int64.le_iff_toInt_le, Int64.toInt_zero] at hn)
  delays := finite?_delay s b n
  steps := staysInRange hb s now n

def utmost : Bandwidth :=
  { capacity := ⟨9223372036854775809, by decide⟩
    refill := 18446744073709551615
    period := 18446744073709551615 }

def deepest : Slot := ⟨-9223372036854775808, 0, 18446744073709551615⟩

/-- The longest wait that ends fills the slot to the last token, with nothing left over. -/
theorem calculates_exactly_utmost :
    deepest.Exact utmost 18446744073709551614 9223372036854775807 ∧
      deepest.figures.refill utmost (2 ^ 64 - 2) = ⟨2 ^ 63 - 1, 2 ^ 64 - 2, 0⟩ ∧
      deepest.figures.delay? utmost (2 ^ 63 - 1) = some (2 ^ 64 - 2) := by
  refine ⟨calculates_exactly (by decide) _ _ _, ?_, ?_⟩
  · decide +kernel
  · decide +kernel

end Slot
end Throttle
