import Throttle.Proofs.Reconfiguration

/-! Asking for tokens without a wait. A call may take them at once, or reserve them with no time to
wait: the first compares balances, the second looks at what is owed beyond the carry. The two agree
as long as carries are worth less than a token. -/

namespace Throttle

theorem Operation.reserve_eq (n : Amount) (maxWait : Nanos) (a : Account) :
    reserve n maxWait a =
      if (a.delay n.balance).isInfinite ∨ maxWait < a.delay n.balance then .skip .infinite
      else .commit (a.delay n.balance) (a.consume n.balance)
        (if (a.delay n.balance).isZero then [] else [.reserved n.balance (a.delay n.balance)]) := by
  rw [reserve]
  by_cases hzero : (a.delay n.balance).isZero
  · have hd : a.delay n.balance = .zero := beq_iff_eq.mp hzero
    have hgranted : ¬(Nanos.zero.isInfinite ∨ maxWait < .zero) := by
      rw [Nanos.lt_iff]
      exact not_or.mpr ⟨by decide, Nat.not_lt_zero _⟩
    simp only [hd, if_neg hgranted, if_pos (show Nanos.zero.isZero = true from rfl)]
  · simp only [if_neg hzero]

namespace Bucket

variable {b : Bucket} {n : Amount} {work : Account}

/-- Whether `n` tokens can be had now does not depend on how they are asked for: a reservation that
must not wait is granted when the tokens can be taken and then publishes the same, it is refused and
publishes nothing when they cannot, and a probe that finds too few names a wait. -/
structure ZeroWaitAgrees (b : Bucket) (n : Amount) : Prop where
  zero_iff : (b.perform (Operation.reserve n .zero)).answer = .ok .zero ↔
    (b.perform (Operation.consume n)).answer = .ok true
  granted : (b.perform (Operation.consume n)).answer = .ok true →
    (b.perform (Operation.reserve n .zero)).bucket = (b.perform (Operation.consume n)).bucket
  refused : (b.perform (Operation.consume n)).answer ≠ .ok true →
    (b.perform (Operation.reserve n .zero)).answer = .ok .infinite ∧
      (b.perform (Operation.reserve n .zero)).bucket = b
  rejected : ∀ found, (b.perform (Operation.probe n)).answer = .ok found → found.consumed = false →
    ¬found.wait.isZero

theorem reserve_eq (refilled : b.account.refill b.clock.now = .ok work) (maxWait : Nanos) :
    b.perform (Operation.reserve n maxWait) =
      if (work.delay n.balance).isInfinite ∨ maxWait < work.delay n.balance then ⟨.ok .infinite, b, []⟩
      else ⟨.ok (work.delay n.balance), b.settle (some (work.consume n.balance)),
        if (work.delay n.balance).isZero then [] else [.reserved n.balance (work.delay n.balance)]⟩ := by
  rw [perform_eq refilled, Operation.reserve_eq]
  split <;> rfl

theorem reserve_zero (refilled : b.account.refill b.clock.now = .ok work) :
    b.perform (Operation.reserve n .zero) =
      if (work.delay n.balance).isZero then
        ⟨.ok .zero, b.settle (some (work.consume n.balance)), []⟩
      else ⟨.ok .infinite, b, []⟩ := by
  rw [reserve_eq refilled]
  by_cases hzero : (work.delay n.balance).isZero
  · have hd : work.delay n.balance = .zero := beq_iff_eq.mp hzero
    rw [hd, if_pos (show Nanos.zero.isZero = true from rfl)]
    rfl
  · have hwait : (work.delay n.balance).isInfinite ∨ Nanos.zero < work.delay n.balance := by
      rw [Nanos.isZero_iff] at hzero
      rw [Nanos.lt_iff]
      exact .inr (Nat.pos_of_ne_zero hzero)
    rw [if_pos hwait, if_neg hzero]

theorem consume_eq (refilled : b.account.refill b.clock.now = .ok work) :
    b.perform (Operation.consume n) =
      if work.available < n.balance then ⟨.ok false, b, []⟩
      else ⟨.ok true, b.settle (some (work.consume n.balance)), []⟩ := by
  rw [perform_eq refilled, Operation.consume]
  split <;> rfl

theorem zeroWaitAgrees_iff_available (hp : work.Paired)
    (refilled : b.account.refill b.clock.now = .ok work) :
    b.ZeroWaitAgrees n ↔ ((work.delay n.balance).isZero → ¬work.available < n.balance) := by
  have hreserve := reserve_zero (n := n) refilled
  have hconsume := consume_eq (n := n) refilled
  constructor
  · intro h hzero hshort
    have hanswer := h.zero_iff.mp (by rw [hreserve, if_pos hzero])
    rw [hconsume, if_pos hshort] at hanswer
    cases hanswer
  · intro h
    by_cases hshort : work.available < n.balance
    · have hzero : ¬(work.delay n.balance).isZero := fun hzero => h hzero hshort
      rw [if_neg hzero] at hreserve
      rw [if_pos hshort] at hconsume
      refine ⟨?_, ?_, ?_, ?_⟩
      · rw [hreserve, hconsume]
        constructor <;> nofun
      · rw [hconsume]; nofun
      · intro _
        rw [hreserve]
        exact ⟨rfl, rfl⟩
      · intro found hfound _
        rw [perform_eq refilled, Operation.probe, if_pos hshort] at hfound
        cases hfound
        exact hzero
    · have hzero : (work.delay n.balance).isZero := by
        rw [Account.delay_isZero_iff]
        intro i l s hat
        rw [Int64.lt_iff_toInt_lt] at hshort
        have hle := (Account.le_available_iff hp).mp (not_lt.mp hshort) i l s hat
        rw [Slot.delay_of_le hle]
        rfl
      rw [if_pos hzero] at hreserve
      rw [if_neg hshort] at hconsume
      refine ⟨?_, ?_, ?_, ?_⟩
      · rw [hreserve, hconsume]
        exact ⟨fun _ => rfl, fun _ => rfl⟩
      · intro _
        rw [hreserve, hconsume]
      · intro hanswer
        exact absurd (by rw [hconsume]) hanswer
      · intro found hfound hconsumed
        rw [perform_eq refilled, Operation.probe, if_neg hshort] at hfound
        cases hfound
        cases hconsumed

/-- The two ways agree exactly when carries alone never make up missing tokens, and so wherever no
period has ever been shortened. -/
theorem zeroWaitAgrees_iff (h : b.account.Reachable) (n : Amount) :
    ∃ work, b.account.refill b.clock.now = .ok work ∧
      (b.ZeroWaitAgrees n ↔
        ((∀ i l s, work.At i l s → n.balance.toInt ≤ s.tokens.toInt ∨ l.refill ≠ 0 ∧
          (n.balance.toInt - s.tokens.toInt) * l.period.toNat ≤ s.carry.toNat) →
        ∀ i l s, work.At i l s → n.balance.toInt ≤ s.tokens.toInt)) ∧
      (b.account.ReachableBy (fun a a' => ∀ i, Account.KeepsPeriod i a a') → b.ZeroWaitAgrees n) := by
  obtain ⟨work, refilled, hr⟩ := b.account.refill_ok b.clock.now
  have hp := hr.paired h.paired
  have hiff := zeroWaitAgrees_iff_available (n := n) hp refilled
  have havailable : ¬work.available < n.balance ↔
      ∀ i l s, work.At i l s → n.balance.toInt ≤ s.tokens.toInt := by
    rw [← Account.le_available_iff hp, Int64.lt_iff_toInt_lt, not_lt]
  refine ⟨work, refilled, ?_, fun reachable => ?_⟩
  · rw [hiff, havailable, Account.delay_isZero_iff]
    simp only [Slot.delay_isZero_iff]
  · rw [hiff, havailable, Account.delay_isZero_iff]
    intro hzero i l s hat
    have hcarry := hr.carry_lt (fun _ => reachable.carry_lt fun _ _ keeps => keeps i) hat
    exact (Slot.delay_isZero_iff_of_carry_lt hcarry).mp (hzero i l s hat)

theorem zeroWaitAgrees_midToken :
    midToken.account.Reachable ∧ midToken.ZeroWaitAgrees ⟨9, by decide⟩ := by
  have reachable := (waited_reachable tenPerSecond (by decide) 850000000).account
  obtain ⟨-, -, -, hagrees⟩ := zeroWaitAgrees_iff (b := midToken) reachable ⟨9, by decide⟩
  exact ⟨reachable, hagrees (.new ..)⟩

/-- The bucket once its hourly limit has been replaced by one token a second. Nothing is there, but
the carry counts for 3599 tokens. -/
def stretched : Bucket :=
  { lateHour with published := ⟨1, everySecond, ⟨[⟨0, 3599999999999, 3599999999999⟩]⟩⟩ }

theorem stretched_reachable : stretched.Reachable := by
  have hperform := perform_eq lateHour_refill (Request.replace everySecond).operation
  have hstretched : (lateHour.perform (Request.replace everySecond).operation).bucket =
      stretched := by
    rw [hperform]
    decide +kernel
  rw [← hstretched]
  exact (waited_reachable ..).perform _

/-- With a balance of zero, 3599 tokens are granted without a wait that cannot be taken. -/
theorem reserve_zero_beyond_balance :
    ¬∀ (b : Bucket) (n : Amount), b.Reachable → b.ZeroWaitAgrees n := by
  intro h
  have refilled : stretched.account.refill stretched.clock.now =
      .ok ⟨everySecond, ⟨[⟨0, 3599999999999, 3599999999999⟩]⟩⟩ := by decide +kernel
  have hgranted := (h stretched ⟨3599, by decide⟩ stretched_reachable).zero_iff.mp
    (by rw [reserve_zero refilled, if_pos (by decide +kernel)])
  rw [consume_eq refilled, if_pos (by decide +kernel)] at hgranted
  cases hgranted

end Bucket
end Throttle
