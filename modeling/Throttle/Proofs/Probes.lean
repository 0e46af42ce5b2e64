import Throttle.Proofs.ZeroWait

/-! Probes. A rejected probe names a wait and throws away the account that it refilled for that. A
retry refills the published account over the same time in one step, and finds the tokens exactly
when the wait is over. -/

namespace Throttle

namespace Slot

variable {s s₁ s' : Slot} {b : Bandwidth} {n : Int} {t : UInt64}

theorem Refills.le_tokens_iff (h : s.Refills b t s')
    (hc : s.carry.toNat < b.period.toNat) (hn : n ≤ b.ceiling.toInt) :
    n ≤ s'.tokens.toInt ↔
      b.period.toNat * n ≤ s.worth b + s.elapsed t * b.refill.toNat := by
  have hpos : (0 : Int) < b.period.toNat := Int.natCast_pos.mpr (Nat.zero_lt_of_lt hc)
  have hdiv := Int.le_ediv_iff_mul_le (a := n - s.tokens.toInt) (b := (s.accrued b t : Int)) hpos
  rw [h.tokens_eq hc, le_min_iff, and_iff_right hn, ← sub_le_iff_le_add', Int.natCast_ediv, hdiv,
    accrued_cast, worth, sub_mul, mul_comm (b.period.toNat : Int) n,
    mul_comm (b.period.toNat : Int) s.tokens.toInt]
  constructor <;> intro h <;> linarith

/-- A reading in between makes no difference to when the slot is worth so many tokens, unless they
are more than it can hold. -/
theorem Refills.worth_iff (h : s.Refills b t s₁) (hn : n ≤ b.ceiling.toInt) (w : Nat) :
    b.period.toNat * n ≤ s₁.worth b + w * b.refill.toNat ↔
      b.period.toNat * n ≤
        s.worth b + (s₁.lastRefill.toNat - s.lastRefill.toNat + w) * b.refill.toNat := by
  have hle := h.worth_le
  have hsplit : ((s₁.lastRefill.toNat - s.lastRefill.toNat + w) * b.refill.toNat : Int) =
      (s₁.lastRefill.toNat - s.lastRefill.toNat) * b.refill.toNat + w * b.refill.toNat :=
    add_mul ..
  rcases lt_or_eq_of_le h.tokens_le with below | full
  · have heq := h.worth_eq below
    constructor <;> intro h <;> linarith
  · -- a slot that has come to its ceiling has the tokens, and had the time for them
    have hfull : b.period.toNat * n ≤ s₁.worth b := by
      have := mul_le_mul_of_nonneg_left hn (Int.natCast_nonneg b.period.toNat)
      rw [worth, full]
      omega
    have hgain : (0 : Int) ≤ w * b.refill.toNat := by positivity
    exact ⟨fun _ => by linarith, fun _ => by linarith⟩

end Slot

namespace Account

variable {a work later : Account} {n : Balance} {t t' L : UInt64} {w : Nat}

theorem Refills.toNat_delay_le_iff (h : a.Refills t work) (h' : a.Refills t' later) (hp : a.Paired)
    (hc : ∀ i l s, a.At i l s → s.carry.toNat < l.period.toNat) (aligned : a.Aligned L)
    (fits : ∀ l ∈ a.configuration.bandwidths, n.toInt ≤ l.ceiling.toInt)
    (hw : w < 2 ^ 64 - 1) (ht : t'.toNat = max L.toNat t.toNat + w) :
    (work.delay n).val.toNat ≤ w ↔ n.toInt ≤ later.available.toInt := by
  rw [toNat_delay_le work n (by omega), le_available_iff (h'.paired hp)]
  have hslot : ∀ {i l s s₁ s'}, a.At i l s → s.Refills l t s₁ → s.Refills l t' s' →
      ((s₁.delay l n).val.toNat ≤ w ↔ n.toInt ≤ s'.tokens.toInt) := by
    intro i l s s₁ s' hat hr hr'
    have hcarry := hc i l s hat
    have hfits := fits l (List.mem_of_getElem? hat.1)
    have helapsed : (s.elapsed t' : Int) = s₁.lastRefill.toNat - s.lastRefill.toNat + w := by
      rw [hr'.elapsed_eq, hr'.lastRefill_eq, hr.lastRefill_eq, hat.lastRefill_eq aligned]
      omega
    rw [Slot.toNat_delay_le_iff_worth (hr.carry_lt hcarry) hw, hr.worth_iff hfits,
      hr'.le_tokens_iff hcarry hfits, helapsed]
  constructor
  · intro hdelay i l s' hat'
    obtain ⟨s, hat, hr'⟩ := h'.slots hat'
    obtain ⟨s₁, hat₁, hr⟩ := h.exists_at hat
    exact (hslot hat hr hr').mp (hdelay i l s₁ hat₁)
  · intro htokens i l s₁ hat₁
    obtain ⟨s, hat, hr⟩ := h.slots hat₁
    obtain ⟨s', hat', hr'⟩ := h'.exists_at hat
    exact (hslot hat hr hr').mpr (htokens i l s' hat')

end Account

theorem Amount.balance_le_ceiling {n : Amount} {l : Bandwidth} (h : n.val ≤ l.capacity.val) :
    n.balance.toInt ≤ l.ceiling.toInt := by
  rw [UInt64.le_iff_toNat_le] at h
  rw [Bandwidth.ceiling, toInt_balance, toInt_balance]
  omega

namespace Bucket

variable {b : Bucket} {n : Amount} {found : Probe} {work : Account}

theorem probe_eq (refilled : b.account.refill b.clock.now = .ok work) :
    b.perform (Operation.probe n) =
      if work.available < n.balance then
        ⟨.ok ⟨false, work.available, work.delay n.balance⟩, b, []⟩
      else ⟨.ok ⟨true, work.available - n.balance, .zero⟩,
        b.settle (some (work.consume n.balance)), []⟩ := by
  rw [perform_eq refilled, Operation.probe]
  split <;> rfl

theorem wait_of_rejected (refilled : b.account.refill b.clock.now = .ok work)
    (probed : (b.perform (Operation.probe n)).answer = .ok found)
    (rejected : found.consumed = false) :
    found.wait = work.delay n.balance ∧ (b.perform (Operation.probe n)).bucket = b := by
  rw [probe_eq refilled] at probed ⊢
  split at probed
  · next short =>
    rw [if_pos short]
    cases probed
    exact ⟨rfl, rfl⟩
  · cases probed
    cases rejected

/-- Probe waits are exact to the nanosecond: while nothing is published, whoever asks again for the
same tokens gets them exactly when the wait is over, counted from the reading of the probe or from
the last published one, whichever is later. A wait that never ends is longer than any such time. -/
theorem probe_wait_exact (h : b.account.ReachableBy fun a a' => ∀ i, Account.KeepsPeriod i a a')
    (fits : ∀ l ∈ b.account.configuration.bandwidths, n.val ≤ l.capacity.val)
    (probed : (b.perform (Operation.probe n)).answer = .ok found)
    (rejected : found.consumed = false) :
    (b.perform (Operation.probe n)).bucket = b ∧ ∃ L, b.account.Aligned L ∧
      ∀ b' : Bucket, b'.published = b.published → max L b.clock.now ≤ b'.clock.now →
        b'.clock.now.toNat - (max L b.clock.now).toNat < 2 ^ 64 - 1 →
        (b'.perform (Operation.consume n)).answer =
          .ok (decide (found.wait.val.toNat ≤ b'.clock.now.toNat - (max L b.clock.now).toNat)) := by
  obtain ⟨L, aligned⟩ := h.aligned
  obtain ⟨work, refilled, hr⟩ := b.account.refill_ok b.clock.now
  obtain ⟨hwait, hsame⟩ := wait_of_rejected refilled probed rejected
  refine ⟨hsame, L, aligned, fun b' published hle hlt => ?_⟩
  obtain ⟨later, hlater, hr'⟩ := b'.account.refill_ok b'.clock.now
  have haccount : b'.account = b.account := congrArg Edition.account published
  rw [UInt64.le_iff_toNat_le, UInt64.toNat_max] at hle
  rw [UInt64.toNat_max] at hlt ⊢
  have hiff := hr.toNat_delay_le_iff (haccount ▸ hr') h.paired
    (fun i _ _ hat => h.carry_lt (fun _ _ keeps => keeps i) hat) aligned
    (fun l hl => Amount.balance_le_ceiling (fits l hl)) hlt (by omega)
  rw [hwait, consume_eq hlater]
  by_cases hshort : later.available < n.balance
  · rw [if_pos hshort]
    rw [Int64.lt_iff_toInt_lt] at hshort
    rw [decide_eq_false (by omega)]
  · rw [if_neg hshort]
    rw [Int64.lt_iff_toInt_lt] at hshort
    rw [decide_eq_true (by omega)]

/-- Eight tokens and a half are there; the ninth comes fifty milliseconds after the probe, and not a
nanosecond before. -/
theorem probe_wait_exact_midToken :
    (midToken.perform (Operation.probe ⟨9, by decide⟩)).answer = .ok ⟨false, 8, ⟨50000000⟩⟩ ∧
      ((waited tenPerSecond (by decide) 899999999).perform
        (Operation.consume ⟨9, by decide⟩)).answer = .ok false ∧
      ((waited tenPerSecond (by decide) 900000000).perform
        (Operation.consume ⟨9, by decide⟩)).answer = .ok true := by
  have refilled : midToken.account.refill midToken.clock.now =
      .ok ⟨.single tenPerSecond (by decide), ⟨[⟨8, 850000000, 500000000⟩]⟩⟩ := by decide +kernel
  have probed : (midToken.perform (Operation.probe ⟨9, by decide⟩)).answer =
      .ok ⟨false, 8, ⟨50000000⟩⟩ := by
    rw [probe_eq refilled]
    decide +kernel
  obtain ⟨-, L, aligned, hexact⟩ := probe_wait_exact (b := midToken) (.new ..) (n := ⟨9, by decide⟩)
    (by decide) probed rfl
  obtain rfl : 0 = L := aligned ⟨0, 0, 0⟩ (.head _)
  have hearly := hexact (waited tenPerSecond (by decide) 899999999) rfl (by decide) (by decide)
  have hdue := hexact (waited tenPerSecond (by decide) 900000000) rfl (by decide) (by decide)
  exact ⟨probed, hearly, hdue⟩

end Bucket
end Throttle
