import Throttle.Proofs.Ledgers
import Throttle.Request

/-! What a call does to the account it takes effect on. A call that publishes charges every slot,
gives to every slot or replaces the limits, and its answer says which; a call that publishes
nothing charges nothing. Accounts reached by calls keep one slot for each limit. -/

namespace Throttle
namespace Request

def charged : Request → Answer → Int
  | .consume n, .consumed true => n.balance.toInt
  | .consumeUpTo _, .taken count => count
  | .probe n, .probed found => if found.consumed then n.balance.toInt else 0
  | .reserve n _, .wait delay => if delay.isInfinite then 0 else n.balance.toInt
  | _, _ => 0

def added : Request → Int
  | .add n => n.balance.toInt
  | _ => 0

/-- What an operation publishes for account `a` under this answer. -/
inductive Publishes (r : Request) (a : Account) (answer : Answer) : Account → Prop
  | charge (n : Balance) (pos : 0 < n.toInt) (ends : ¬(a.delay n).isInfinite)
      (charged : r.charged answer = n.toInt) (added : r.added = 0) :
      Publishes r a answer (a.consume n)
  | give (n : Amount) (request : r = .add n) (charged : r.charged answer = 0) :
      Publishes r a answer (a.add n.balance)
  | replace (c : Configuration) (request : r = .replace c)
      (compatible : a.configuration.Compatible c) (charged : r.charged answer = 0) :
      Publishes r a answer (a.reconfigure c)

end Request

namespace Account

theorem delay_eq_zero_of_le_available {a : Account} (hp : a.Paired) {n : Balance}
    (h : n.toInt ≤ a.available.toInt) : a.delay n = .zero := by
  apply beq_iff_eq.mp
  refine delay_isZero_iff.mpr fun i b s hat => ?_
  rw [Slot.delay_of_le ((le_available_iff hp).mp h i b s hat)]
  rfl

theorem delay_of_le_available {a : Account} (hp : a.Paired) {n : Balance}
    (h : n.toInt ≤ a.available.toInt) : ¬(a.delay n).isInfinite := by
  rw [delay_eq_zero_of_le_available hp h]
  decide

end Account

namespace Request

theorem publishes {r : Request} {a a' : Account} (hp : a.Paired)
    (h : (r.operation a).publish = some a') : r.Publishes a (r.operation a).answer a' := by
  cases r with
  | consume n =>
    simp only [operation, Operation.consume, Int64.lt_iff_toInt_lt] at h ⊢
    split at h
    · cases h
    · next hle =>
      rw [if_neg hle]
      cases h
      exact .charge _ n.balance_pos (Account.delay_of_le_available hp (by omega)) rfl rfl
  | consumeUpTo limit =>
    simp only [operation, Operation.consumeUpTo, Int64.le_iff_toInt_le] at h ⊢
    split at h
    · cases h
    · next hpos =>
      rw [if_neg hpos]
      cases h
      have hmin := Balance.toInt_min limit.balance a.available
      have hpos : 0 < (min limit.balance a.available).toInt := by
        rw [Int64.toInt_zero] at hpos; omega
      exact .charge _ hpos (Account.delay_of_le_available hp (by omega))
        (Int.toNat_of_nonneg hpos.le) rfl
  | probe n =>
    simp only [operation, Operation.probe, Int64.lt_iff_toInt_lt] at h ⊢
    split at h
    · cases h
    · next hle =>
      rw [if_neg hle]
      cases h
      exact .charge _ n.balance_pos (Account.delay_of_le_available hp (by omega)) rfl rfl
  | reserve n maxWait =>
    simp only [operation, Operation.reserve] at h ⊢
    split at h
    · next hzero =>
      rw [if_pos hzero]
      cases h
      refine .charge _ n.balance_pos ?_ rfl rfl
      rw [Nanos.isZero_iff] at hzero
      rw [Nanos.isInfinite_iff, hzero]
      decide
    · next hzero =>
      rw [if_neg hzero]
      split at h
      · cases h
      · next hwait =>
        rw [if_neg hwait]
        cases h
        obtain ⟨hends, -⟩ := not_or.mp hwait
        exact .charge _ n.balance_pos hends (if_neg hends) rfl
  | add n =>
    cases h
    exact .give n rfl rfl
  | replace c =>
    simp only [operation, Operation.replace] at h ⊢
    split at h
    · next hc =>
      cases h
      exact .replace c rfl hc rfl
    · cases h
  | available => cases h

theorem unpublished {r : Request} {a : Account} (h : (r.operation a).publish = none) :
    r.charged (r.operation a).answer = 0 ∧ r.added = 0 := by
  cases r with
  | consume n =>
    simp only [operation, Operation.consume] at h ⊢
    split at h
    · next hlt => rw [if_pos hlt]; exact ⟨rfl, rfl⟩
    · cases h
  | consumeUpTo limit =>
    simp only [operation, Operation.consumeUpTo] at h ⊢
    split at h
    · next hle => rw [if_pos hle]; exact ⟨rfl, rfl⟩
    · cases h
  | probe n =>
    simp only [operation, Operation.probe] at h ⊢
    split at h
    · next hlt => rw [if_pos hlt]; exact ⟨rfl, rfl⟩
    · cases h
  | reserve n maxWait =>
    simp only [operation, Operation.reserve] at h ⊢
    split at h
    · cases h
    · next hzero =>
      rw [if_neg hzero]
      split at h
      · next hwait => rw [if_pos hwait]; exact ⟨rfl, rfl⟩
      · cases h
  | add n => cases h
  | replace c => exact ⟨rfl, rfl⟩
  | available => exact ⟨rfl, rfl⟩

end Request

namespace Configuration

theorem Compatible.length_eq {p q : Configuration} (h : p.Compatible q) :
    p.bandwidths.length = q.bandwidths.length := by
  unfold Compatible incompatibility? at h
  split at h
  · cases h
  · next hlen => exact not_not.mp hlen

theorem firstClash?_self (position : Nat) (bs : List Bandwidth) :
    Bandwidth.firstClash? position bs bs = none := by
  induction bs generalizing position with
  | nil => rfl
  | cons b bs ih =>
    have hb : b.clash? b = none := by
      unfold Bandwidth.clash?
      cases b.id <;> simp
    rw [Bandwidth.firstClash?, hb]
    exact ih (position + 1)

theorem Compatible.refl (c : Configuration) : c.Compatible c := by
  rw [Compatible, incompatibility?, if_neg (not_not.mpr rfl)]
  exact firstClash?_self 0 c.bandwidths

end Configuration

namespace Account

/-- The account that a call refills from `a` publishes `a'` with this answer. -/
inductive Commits (a : Account) (r : Request) (reading : UInt64) (answer : Answer)
    (a' : Account) : Prop
  | intro (work : Account) (refilled : a.refill reading = .ok work)
      (published : (r.operation work).publish = some a')
      (answered : (r.operation work).answer = answer)

theorem Commits.paired {a a' : Account} {r : Request} {reading : UInt64} {answer : Answer}
    (h : a.Commits r reading answer a') (hp : a.Paired) : a'.Paired := by
  obtain ⟨work, refilled, published, -⟩ := h
  have hp : work.Paired := (refills_of_ok refilled).paired hp
  cases Request.publishes hp published with
  | charge n => exact consume_paired n hp
  | give n => exact add_paired n.balance hp
  | replace c _ compatible => exact hp.trans compatible.length_eq

/-- A call keeps the configuration or puts a compatible one in its place. -/
theorem Commits.compatible {a a' : Account} {r : Request} {reading : UInt64} {answer : Answer}
    (h : a.Commits r reading answer a') (hp : a.Paired) :
    a.configuration.Compatible a'.configuration := by
  obtain ⟨work, refilled, published, -⟩ := h
  have hr := refills_of_ok refilled
  rw [← hr.configuration]
  cases Request.publishes (hr.paired hp) published with
  | charge n => exact .refl _
  | give n => exact .refl _
  | replace c _ compatible => exact compatible

/-- All slots have been refilled up to the same reading. -/
def Aligned (a : Account) (t : UInt64) : Prop := ∀ s ∈ a.ledger.slots, s.lastRefill = t

theorem new_aligned (c : Configuration) (now : UInt64) : (new c now).Aligned now := by
  intro s hs
  obtain ⟨b, -, rfl⟩ := List.mem_map.mp hs
  rfl

theorem At.lastRefill_eq {a : Account} {t : UInt64} {i : Nat} {b : Bandwidth} {s : Slot}
    (hat : a.At i b s) (h : a.Aligned t) : s.lastRefill = t := h s (List.mem_of_getElem? hat.2)

theorem Paired.aligned {a : Account} (hp : a.Paired) {t : UInt64}
    (h : ∀ i b s, a.At i b s → s.lastRefill = t) : a.Aligned t := by
  intro s hs
  obtain ⟨i, hi⟩ := List.mem_iff_getElem?.mp hs
  obtain ⟨b, hat⟩ := hp.exists_at_slot hi
  exact h i b s hat

theorem Refills.aligned {a a' : Account} {now t : UInt64} (h : a.Refills now a') (hp : a.Paired)
    (ha : a.Aligned t) : a'.Aligned (max t now) := by
  apply (h.paired hp).aligned
  intro i b s' hat'
  obtain ⟨s, hat, hr⟩ := h.slots hat'
  apply UInt64.toNat_inj.mp
  rw [hr.lastRefill_eq, UInt64.toNat_max, hat.lastRefill_eq ha]

theorem Aligned.consume {a : Account} {t : UInt64} (h : a.Aligned t) (n : Balance) :
    (a.consume n).Aligned t := by
  intro s' hs'
  obtain ⟨s, hs, rfl⟩ := List.mem_map.mp hs'
  exact h s hs

/-- A call brings every slot up to its reading, whatever else it does. -/
theorem Commits.aligned {a a' : Account} {r : Request} {reading t : UInt64} {answer : Answer}
    (h : a.Commits r reading answer a') (hp : a.Paired) (ha : a.Aligned t) :
    a'.Aligned (max t reading) := by
  have hp' := h.paired hp
  obtain ⟨work, refilled, published, -⟩ := h
  have hr := refills_of_ok refilled
  have hw := hr.aligned hp ha
  cases Request.publishes (hr.paired hp) published with
  | charge n => exact hw.consume n
  | give n =>
    apply hp'.aligned
    intro i b s' hat'
    obtain ⟨s, hat, rfl⟩ := add_at.mp hat'
    rw [Slot.add_lastRefill, hat.lastRefill_eq hw]
  | replace c => exact hw

/-- An account that calls reach from a new one, every step from an account to the next allowed. -/
inductive ReachableBy (allowed : Account → Account → Prop) : Account → Prop
  | new (c : Configuration) (now : UInt64) : ReachableBy allowed (.new c now)
  | commit {a a' : Account} {r : Request} {reading : UInt64} {answer : Answer}
      (before : ReachableBy allowed a) (step : a.Commits r reading answer a')
      (ok : allowed a a') : ReachableBy allowed a'

def Reachable : Account → Prop := ReachableBy fun _ _ => True

theorem ReachableBy.paired {allowed : Account → Account → Prop} {a : Account}
    (h : ReachableBy allowed a) : a.Paired := by
  induction h with
  | new c now => exact new_paired c now
  | commit _ step _ ih => exact step.paired ih

theorem ReachableBy.aligned {allowed : Account → Account → Prop} {a : Account}
    (h : ReachableBy allowed a) : ∃ t, a.Aligned t := by
  induction h with
  | new c now => exact ⟨now, new_aligned c now⟩
  | commit before step _ ih =>
    obtain ⟨t, ht⟩ := ih
    exact ⟨_, step.aligned before.paired ht⟩

def KeepsPeriod (i : Nat) (a a' : Account) : Prop :=
  ∀ b b', a.configuration.bandwidths[i]? = some b → a'.configuration.bandwidths[i]? = some b' →
    b.period.toNat ≤ b'.period.toNat

/-- A call leaves a carry that is worth less than a token, unless it shortens the period. -/
theorem Commits.carry_lt {a a' : Account} {r : Request} {reading : UInt64} {answer : Answer} {i : Nat}
    (h : a.Commits r reading answer a') (hp : a.Paired) (keeps : KeepsPeriod i a a')
    (hcarry : ∀ b s, a.At i b s → s.carry.toNat < b.period.toNat) {b : Bandwidth} {s : Slot}
    (hat : a'.At i b s) : s.carry.toNat < b.period.toNat := by
  obtain ⟨work, refilled, published, -⟩ := h
  have hr := refills_of_ok refilled
  have hwork : ∀ {b s}, work.At i b s → s.carry.toNat < b.period.toNat :=
    hr.carry_lt (hcarry _)
  have hpw := hr.paired hp
  cases Request.publishes hpw published with
  | charge n =>
    obtain ⟨s₀, hs₀, rfl⟩ := consume_at.mp hat
    rw [Slot.consume_carry]
    exact hwork hs₀
  | give n =>
    obtain ⟨s₀, hs₀, rfl⟩ := add_at.mp hat
    exact Slot.add_carry_lt n.balance_pos.le (hwork hs₀)
  | replace c _ compatible =>
    obtain ⟨b₀, hs₀⟩ := hpw.exists_at_slot hat.2
    have hb₀ := hs₀.1
    rw [hr.configuration] at hb₀
    exact (hwork hs₀).trans_le (keeps b₀ b hb₀ hat.1)

/-- A carry is worth less than a token where no period has been shortened. -/
theorem ReachableBy.carry_lt {allowed : Account → Account → Prop} {i : Nat}
    (keeps : ∀ a a', allowed a a' → KeepsPeriod i a a') {a : Account} (h : ReachableBy allowed a)
    {b : Bandwidth} {s : Slot} (hat : a.At i b s) : s.carry.toNat < b.period.toNat := by
  induction h generalizing b s with
  | new c now =>
    obtain ⟨-, rfl⟩ := new_at.mp hat
    exact hat.valid.toNat_pos
  | commit before step ok ih => exact step.carry_lt before.paired (keeps _ _ ok) (fun _ _ => ih) hat

end Account
end Throttle
