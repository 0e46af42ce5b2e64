import Throttle.Proofs.Grants
import Throttle.Proofs.ZeroWait

/-! Reservations. The delay that a reservation answers is the shortest time in which the slots that
it has charged come back to zero, and it is refused exactly when no time that it may wait is
enough. -/

namespace Throttle

namespace Slot

/-- The balance after a charge of `n` tokens and `w` nanoseconds, in numbers without bounds. -/
def after (s : Slot) (b : Bandwidth) (n : Int) (w : Nat) : Int :=
  min b.ceiling.toInt
    (s.tokens.toInt - n + ((w * b.refill.toNat + s.carry.toNat) / b.period.toNat : Nat))

variable {s s₁ s' : Slot} {b : Bandwidth} {n : Int} {t : UInt64} {w : Nat}

theorem after_nonneg_iff (hb : 0 < b.period.toNat) : 0 ≤ s.after b n w ↔
    (n - s.tokens.toInt) * b.period.toNat ≤ (w * b.refill.toNat + s.carry.toNat : Nat) := by
  have hceiling : 0 < b.ceiling.toInt := b.capacity.balance_pos
  have hdiv := Int.le_ediv_iff_mul_le (a := n - s.tokens.toInt)
    (b := (w * b.refill.toNat + s.carry.toNat : Nat)) (Int.natCast_pos.mpr hb)
  rw [← hdiv, after, Int.natCast_ediv]
  omega

theorem Refills.tokens_after (h : s₁.Refills b t s') (hc : s₁.carry.toNat < b.period.toNat)
    (tokens : s₁.tokens.toInt = s.tokens.toInt - n) (carry : s₁.carry = s.carry)
    (ht : t.toNat = s₁.lastRefill.toNat + w) : s'.tokens.toInt = s.after b n w := by
  have helapsed : s₁.elapsed t = w := by unfold elapsed; omega
  rw [h.tokens_eq hc, accrued, helapsed, after, tokens, carry]

end Slot

namespace Account

def Repays (a : Account) (n : Int) (w : Nat) : Prop := ∀ i l s, a.At i l s → 0 ≤ s.after l n w

variable {a work later : Account} {n : Int} {w w' : Nat}

theorem Repays.mono (h : a.Repays n w) (hw : w ≤ w') : a.Repays n w' := by
  intro i l s hat
  have hmul := Nat.mul_le_mul_right l.refill.toNat hw
  have hdue := (Slot.after_nonneg_iff hat.valid.toNat_pos).mp (h i l s hat)
  exact (Slot.after_nonneg_iff hat.valid.toNat_pos).mpr (by omega)

/-- The delay is the shortest time that repays a charge. -/
theorem toNat_delay_le_iff {n : Balance} (hc : ∀ i l s, a.At i l s → s.carry.toNat < l.period.toNat)
    (hw : w < 2 ^ 64 - 1) : (a.delay n).val.toNat ≤ w ↔ a.Repays n.toInt w := by
  rw [toNat_delay_le a n (by omega)]
  refine forall₄_congr fun i l s hat => ?_
  rw [Slot.toNat_delay_le_iff (hc i l s hat) hw, Slot.after_nonneg_iff hat.valid.toNat_pos]

theorem Charged.available_nonneg_iff {L t : UInt64} (h : work.Charged n a) (hp : work.Paired)
    (hc : ∀ i l s, work.At i l s → s.carry.toNat < l.period.toNat) (aligned : work.Aligned L)
    (hr : a.Refills t later) (ht : t.toNat = L.toNat + w) :
    0 ≤ later.available.toInt ↔ work.Repays n w := by
  have hpa : a.Paired := by rw [Paired, h.length, h.configuration]; exact hp
  have hafter : ∀ {i l s s₁ s'}, work.At i l s → a.At i l s₁ → s₁.Refills l t s' →
      s'.tokens.toInt = s.after l n w := by
    intro i l s s₁ s' hat hat₁ hrefills
    obtain ⟨s₂, hat₂, tokens, last, carry⟩ := h.slots i l s hat
    obtain ⟨-, rfl⟩ := hat₁.unique hat₂
    refine hrefills.tokens_after ?_ tokens carry ?_
    · rw [carry]; exact hc i l s hat
    · rw [last, hat.lastRefill_eq aligned]; exact ht
  rw [← Int64.toInt_zero, le_available_iff (hr.paired hpa), Int64.toInt_zero]
  constructor
  · intro hall i l s hat
    obtain ⟨s₁, hat₁, -⟩ := h.slots i l s hat
    obtain ⟨s', hat', hrefills⟩ := hr.exists_at hat₁
    rw [← hafter hat hat₁ hrefills]
    exact hall i l s' hat'
  · intro hall i l s' hat'
    obtain ⟨s₁, hat₁, hrefills⟩ := hr.slots hat'
    obtain ⟨s, hat⟩ := hp.exists_at (h.configuration ▸ hat₁.1)
    rw [hafter hat hat₁ hrefills]
    exact hall i l s hat

end Account

namespace Bucket

variable {b : Bucket} {n : Amount} {maxWait : Nanos} {work : Account}

/-- What a reservation of `n` tokens that may wait for `span` nanoseconds comes to, where `work` is
the account refilled to the time of the call and `L` is the reading that its slots have come to. -/
structure Reserves (b : Bucket) (n : Amount) (maxWait : Nanos) (span : Nat) (work : Account)
    (L : UInt64) : Prop where
  /-- It is refused and publishes nothing, or it charges every slot and answers when they will have
  come back to zero. -/
  outcome :
    (b.perform (Operation.reserve n maxWait)).answer = .ok .infinite ∧
      (b.perform (Operation.reserve n maxWait)).bucket = b ∨
    ∃ d : Nanos, (b.perform (Operation.reserve n maxWait)).answer = .ok d ∧ ¬d.isInfinite ∧
      d.val.toNat ≤ span ∧
      work.Charged n.balance.toInt (b.perform (Operation.reserve n maxWait)).bucket.account ∧
      (b.perform (Operation.reserve n maxWait)).bucket.account.Aligned L ∧
      ∀ w, L.toNat + w < 2 ^ 64 → ∃ later,
        (b.perform (Operation.reserve n maxWait)).bucket.account.refill
          (UInt64.ofNat (L.toNat + w)) = .ok later ∧
        (0 ≤ later.available.toInt ↔ d.val.toNat ≤ w)
  refused_iff : (b.perform (Operation.reserve n maxWait)).answer = .ok .infinite ↔
    ¬∃ w, w ≤ span ∧ w < 2 ^ 64 - 1 ∧ work.Repays n.balance.toInt w

theorem reserves_of_refused {span : Nat} {L : UInt64}
    (refilled : b.account.refill b.clock.now = .ok work)
    (hc : ∀ i l s, work.At i l s → s.carry.toNat < l.period.toNat) (hspan : maxWait = .ofNat span)
    (refused : (work.delay n.balance).isInfinite ∨ maxWait < work.delay n.balance) :
    b.Reserves n maxWait span work L := by
  have hmax : maxWait.val.toNat = min span (2 ^ 64 - 1) := by rw [hspan, Nanos.toNat_ofNat]
  have hreserve := reserve_eq (n := n) refilled maxWait
  rw [if_pos refused] at hreserve
  constructor
  · rw [hreserve]
    exact .inl ⟨rfl, rfl⟩
  · rw [hreserve]
    refine ⟨fun _ => ?_, fun _ => rfl⟩
    rintro ⟨w, hw, hlt, hrepays⟩
    have hle := (Account.toNat_delay_le_iff hc hlt).mpr hrepays
    rw [Nanos.isInfinite_iff, Nanos.lt_iff] at refused
    omega

theorem reserves_of_granted {span : Nat} {L : UInt64}
    (refilled : b.account.refill b.clock.now = .ok work) (hp : work.Paired)
    (hc : ∀ i l s, work.At i l s → s.carry.toNat < l.period.toNat) (aligned : work.Aligned L)
    (room : ∀ i l s, work.At i l s → -2 ^ 63 ≤ s.tokens.toInt - n.balance.toInt)
    (hspan : maxWait = .ofNat span)
    (granted : ¬((work.delay n.balance).isInfinite ∨ maxWait < work.delay n.balance)) :
    b.Reserves n maxWait span work L := by
  have hmax : maxWait.val.toNat = min span (2 ^ 64 - 1) := by rw [hspan, Nanos.toNat_ofNat]
  have hreserve := reserve_eq (n := n) refilled maxWait
  rw [if_neg granted] at hreserve
  obtain ⟨hends, hwait⟩ := not_or.mp granted
  have hfinite := hends
  have hlt := (work.delay n.balance).val.toNat_lt
  rw [Nanos.isInfinite_iff] at hfinite
  rw [Nanos.lt_iff] at hwait
  have hrepays : work.Repays n.balance.toInt (work.delay n.balance).val.toNat :=
    (Account.toNat_delay_le_iff hc (by omega)).mp le_rfl
  have charged : work.Charged n.balance.toInt (work.consume n.balance) :=
    (Account.charged_consume_iff n.balance_pos.le).mpr room
  constructor
  · rw [hreserve]
    refine .inr ⟨_, rfl, hends, by omega, charged, aligned.consume _, fun w hw => ?_⟩
    obtain ⟨later, hlater, hr⟩ := (work.consume n.balance).refill_ok (UInt64.ofNat (L.toNat + w))
    have ht : (UInt64.ofNat (L.toNat + w)).toNat = L.toNat + w :=
      UInt64.toNat_ofNat'.trans (Nat.mod_eq_of_lt hw)
    refine ⟨later, hlater, (charged.available_nonneg_iff hp hc aligned hr ht).trans ?_⟩
    refine ⟨fun h => ?_, hrepays.mono⟩
    -- The one time that no finite delay reaches is longer than the delay anyway.
    by_cases hlong : w < 2 ^ 64 - 1
    · exact (Account.toNat_delay_le_iff hc hlong).mpr h
    · omega
  · rw [hreserve]
    constructor
    · intro hanswer
      have hd : work.delay n.balance = .infinite := Except.ok.inj hanswer
      exact absurd (by rw [hd]; rfl) hends
    · intro hnone
      exact absurd ⟨_, by omega, by omega, hrepays⟩ hnone

/-- A reservation keeps its word wherever no period has been shortened and no slot would fall below
the least balance. The time that it may wait is any span, also one that is longer than a word
holds. -/
theorem reserve_keeps (h : b.account.ReachableBy fun a a' => ∀ i, Account.KeepsPeriod i a a')
    (n : Amount) {span : Nat} (hspan : maxWait = .ofNat span) :
    ∃ work L, b.account.refill b.clock.now = .ok work ∧ work.Aligned L ∧
      ((∀ i l s, work.At i l s → -2 ^ 63 ≤ s.tokens.toInt - n.balance.toInt) →
        b.Reserves n maxWait span work L) := by
  obtain ⟨work, refilled, hr⟩ := b.account.refill_ok b.clock.now
  obtain ⟨t, aligned⟩ := h.aligned
  have aligned := hr.aligned h.paired aligned
  have hc : ∀ i l s, work.At i l s → s.carry.toNat < l.period.toNat :=
    fun i l s => hr.carry_lt fun _ => h.carry_lt fun _ _ keeps => keeps i
  refine ⟨work, _, refilled, aligned, fun room => ?_⟩
  by_cases hrefused : (work.delay n.balance).isInfinite ∨ maxWait < work.delay n.balance
  · exact reserves_of_refused refilled hc hspan hrefused
  · exact reserves_of_granted refilled (hr.paired h.paired) hc aligned room hspan hrefused

/-- Half a token over eight of ten, more than all ten are asked for, with more time to wait than a
word holds. -/
theorem reserve_keeps_midToken :
    Nanos.infinite = .ofNat (2 ^ 64 + 1) ∧
      (midToken.perform (Operation.reserve ⟨25, by decide⟩ .infinite)).answer =
        .ok ⟨1650000000⟩ ∧
      ∃ work L, midToken.account.refill midToken.clock.now = .ok work ∧
        midToken.Reserves ⟨25, by decide⟩ .infinite (2 ^ 64 + 1) work L := by
  have refilled : midToken.account.refill midToken.clock.now =
      .ok ⟨.single tenPerSecond (by decide), ⟨[⟨8, 850000000, 500000000⟩]⟩⟩ := by decide +kernel
  have hspan : Nanos.infinite = .ofNat (2 ^ 64 + 1) := by decide +kernel
  have answered : (midToken.perform (Operation.reserve ⟨25, by decide⟩ .infinite)).answer =
      .ok ⟨1650000000⟩ := by
    rw [reserve_eq refilled]
    decide +kernel
  obtain ⟨work, L, hwork, -, hkeeps⟩ :=
    reserve_keeps (b := midToken) (.new ..) ⟨25, by decide⟩ hspan
  cases hwork.symm.trans refilled
  refine ⟨hspan, answered, _, L, refilled, hkeeps ?_⟩
  intro i l s hat
  obtain ⟨-, rfl⟩ := Account.at_single hat
  decide

end Bucket
end Throttle
