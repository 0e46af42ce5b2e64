import Throttle.Proofs.Alone

/-! What a grant takes from the slots. A call that grants tokens charges all slots with what it
grants, and the charge is taken in full as long as every slot can go that deep. Only a reservation
can ask for more: it looks at the time that the debt takes, and a fast limit repays in no time what
a balance has no room for. -/

namespace Throttle
namespace Request

/-- How long after its call the tokens of an answer are there, if it grants any. -/
def grant? : Request → Answer → Option Nanos
  | .consume _, .consumed true => some .zero
  | .consumeUpTo _, .taken count => if count = 0 then none else some .zero
  | .probe _, .probed found => if found.consumed then some .zero else none
  | .reserve _ _, .wait delay => if delay.isInfinite then none else some delay
  | _, _ => none

/-- How `n` tokens of an account are granted, and with which delay: they are there, or they are
reserved for when they are. -/
inductive Grants (r : Request) (a : Account) (n : Balance) : Nanos → Prop
  | taken (there : n.toInt ≤ a.available.toInt) : Grants r a n .zero
  | reserved (m : Amount) (maxWait : Nanos) (request : r = .reserve m maxWait)
      (ends : ¬(a.delay n).isInfinite) : Grants r a n (a.delay n)

theorem Grants.delay_eq {r : Request} {a : Account} {n : Balance} {d : Nanos} (hp : a.Paired)
    (h : r.Grants a n d) : a.delay n = d := by
  cases h with
  | taken there => exact Account.delay_eq_zero_of_le_available hp there
  | reserved => rfl

theorem Grants.ends {r : Request} {a : Account} {n : Balance} {d : Nanos} (hp : a.Paired)
    (h : r.Grants a n d) : ¬(a.delay n).isInfinite := by
  cases h with
  | taken there => exact Account.delay_of_le_available hp there
  | reserved _ _ _ ends => exact ends

/-- A grant is a charge of every slot. -/
theorem exists_charge {r : Request} {a : Account} {d : Nanos}
    (h : r.grant? (r.operation a).answer = some d) :
    ∃ n : Balance, 0 < n.toInt ∧ (r.operation a).publish = some (a.consume n) ∧
      r.charged (r.operation a).answer = n.toInt ∧ r.Grants a n d := by
  cases r with
  | consume n =>
    simp only [operation, Operation.consume, Int64.lt_iff_toInt_lt] at h ⊢
    split at h
    · cases h
    · next hle =>
      rw [if_neg hle]
      cases h
      exact ⟨_, n.balance_pos, rfl, rfl, .taken (not_lt.mp hle)⟩
  | consumeUpTo limit =>
    simp only [operation, Operation.consumeUpTo, Int64.le_iff_toInt_le] at h ⊢
    split at h
    · cases h
    · next hpos =>
      rw [if_neg hpos]
      have hmin := Balance.toInt_min limit.balance a.available
      have hpos : 0 < (min limit.balance a.available).toInt := by
        rw [Int64.toInt_zero] at hpos; omega
      simp only [Decision.commit, Decision.map, grant?] at h
      split at h
      · cases h
      · cases h
        exact ⟨_, hpos, rfl, Int.toNat_of_nonneg hpos.le, .taken (by omega)⟩
  | probe n =>
    simp only [operation, Operation.probe, Int64.lt_iff_toInt_lt] at h ⊢
    split at h
    · cases h
    · next hle =>
      rw [if_neg hle]
      cases h
      exact ⟨_, n.balance_pos, rfl, rfl, .taken (not_lt.mp hle)⟩
  | reserve n maxWait =>
    simp only [operation, Operation.reserve] at h ⊢
    split at h
    · next hzero =>
      rw [if_pos hzero]
      cases h
      refine ⟨_, n.balance_pos, rfl, rfl, ?_⟩
      have hd : a.delay n.balance = .zero := beq_iff_eq.mp hzero
      rw [← hd]
      exact .reserved n maxWait rfl (by rw [hd]; decide)
    · next hzero =>
      rw [if_neg hzero]
      split at h
      · cases h
      · next hwait =>
        rw [if_neg hwait]
        obtain ⟨hends, -⟩ := not_or.mp hwait
        simp only [Decision.commit, Decision.map, grant?, if_neg hends, Option.some.injEq] at h
        subst h
        exact ⟨_, n.balance_pos, rfl, if_neg hends, .reserved n maxWait rfl hends⟩
  | add n => cases h
  | replace c =>
    simp only [operation, Operation.replace] at h
    split at h <;> cases h
  | available => cases h

theorem charged_nonneg (r : Request) (answer : Answer) : 0 ≤ r.charged answer := by
  unfold charged
  split
  · next n => exact n.balance_pos.le
  · exact Int.natCast_nonneg _
  · next n _ =>
    split
    · exact n.balance_pos.le
    · exact le_rfl
  · next n _ _ =>
    split
    · exact le_rfl
    · exact n.balance_pos.le
  · exact le_rfl

theorem exists_grant_of_charged_pos {r : Request} {answer : Answer} (h : 0 < r.charged answer) :
    ∃ d, r.grant? answer = some d := by
  unfold charged at h
  split at h
  · exact ⟨_, rfl⟩
  · exact ⟨_, if_neg (Nat.pos_iff_ne_zero.mp (Int.natCast_pos.mp h))⟩
  · split at h
    · next hc => exact ⟨_, if_pos hc⟩
    · exact absurd h (lt_irrefl 0)
  · split at h
    · exact absurd h (lt_irrefl 0)
    · next hd => exact ⟨_, if_neg hd⟩
  · exact absurd h (lt_irrefl 0)

/-- What a call publishes that neither gives nor replaces is a grant, made with the delay that the
charge has to wait for. -/
theorem exists_grant {r : Request} {a a' : Account} (hp : a.Paired)
    (h : (r.operation a).publish = some a') (gives : ∀ n, r ≠ .add n)
    (keeps : ∀ c, r ≠ .replace c) :
    ∃ (n : Balance) (d : Nanos), 0 < n.toInt ∧ a' = a.consume n ∧
      r.grant? (r.operation a).answer = some d ∧ r.Grants a n d := by
  cases publishes hp h with
  | charge _ pos _ charged =>
    obtain ⟨d, hd⟩ := exists_grant_of_charged_pos (charged ▸ pos)
    obtain ⟨n, hn, published, -, grants⟩ := exists_charge hd
    exact ⟨n, d, hn, Option.some.inj (h.symm.trans published), hd, grants⟩
  | give n request => exact absurd request (gives n)
  | replace c request => exact absurd request (keeps c)

theorem grant_le {r : Request} {a : Account} {d : Nanos} {W : Nat}
    (h : r.grant? (r.operation a).answer = some d)
    (patience : ∀ n maxWait, r = .reserve n maxWait → maxWait.val.toNat ≤ W) : d.val.toNat ≤ W := by
  obtain ⟨n, -, published, -, grants⟩ := exists_charge h
  cases grants with
  | taken => exact Nat.zero_le W
  | reserved m maxWait request ends =>
    subst request
    have hW := patience m maxWait rfl
    simp only [operation, Operation.reserve] at h
    split at h
    · have hd : Nanos.zero = a.delay n := Option.some.inj h
      rw [← hd]
      exact Nat.zero_le W
    · split at h
      · cases h
      · next hwait =>
        obtain ⟨hends, hle⟩ := not_or.mp hwait
        simp only [Decision.commit, Decision.map, grant?, if_neg hends, Option.some.injEq] at h
        rw [Nanos.lt_iff, h] at hle
        omega

inductive Asks (n : Amount) : Request → Prop
  | consume : Asks n (.consume n)
  | probe : Asks n (.probe n)
  | reserve (maxWait : Nanos) : Asks n (.reserve n maxWait)

theorem Asks.charged_eq {n : Amount} {r : Request} {answer : Answer} (h : r.Asks n)
    (granted : (r.grant? answer).isSome) : r.charged answer = n.balance.toInt := by
  cases h with
  | consume =>
    cases answer with
    | consumed all =>
      cases all with
      | true => rfl
      | false => cases granted
    | _ => cases granted
  | probe =>
    cases answer with
    | probed found =>
      by_cases hc : found.consumed
      · exact if_pos hc
      · rw [grant?, if_neg hc] at granted
        cases granted
    | _ => cases granted
  | reserve maxWait =>
    cases answer with
    | wait delay =>
      by_cases hd : delay.isInfinite
      · rw [grant?, if_pos hd] at granted
        cases granted
      · exact if_neg hd
    | _ => cases granted

end Request

namespace Account

/-- From `work` to `a` every slot has lost exactly `n` tokens, and nothing else is changed. -/
structure Charged (work : Account) (n : Int) (a : Account) : Prop where
  configuration : a.configuration = work.configuration
  length : a.ledger.slots.length = work.ledger.slots.length
  slots : ∀ i l s, work.At i l s → ∃ s', a.At i l s' ∧ s'.tokens.toInt = s.tokens.toInt - n ∧
    s'.lastRefill = s.lastRefill ∧ s'.carry = s.carry

/-- From `work` to `a` every slot has lost `n` tokens, as far down as a balance goes, and nothing else
is changed. -/
structure Debited (work : Account) (n : Int) (a : Account) : Prop where
  configuration : a.configuration = work.configuration
  length : a.ledger.slots.length = work.ledger.slots.length
  slots : ∀ i l s, work.At i l s → ∃ s', a.At i l s' ∧
    s'.tokens.toInt = max (-2 ^ 63) (s.tokens.toInt - n) ∧
    s'.lastRefill = s.lastRefill ∧ s'.carry = s.carry

theorem debited_consume {a : Account} {n : Balance} (hn : 0 ≤ n.toInt) :
    a.Debited n.toInt (a.consume n) := by
  refine ⟨rfl, by simp [consume, Ledger.consume], fun i l s hat => ?_⟩
  refine ⟨s.consume n, consume_at.mpr ⟨s, hat, rfl⟩, ?_, rfl, rfl⟩
  have := s.tokens.toInt_lt
  rw [Slot.consume, Balance.toInt_sub]
  omega

/-- A charge is exact when no slot falls below the least balance. -/
theorem Debited.exact_iff {work a : Account} {n : Int} (h : work.Debited n a) :
    work.Charged n a ↔ ∀ i l s, work.At i l s → -2 ^ 63 ≤ s.tokens.toInt - n := by
  constructor
  · intro charged i l s hat
    obtain ⟨s', -, tokens, -⟩ := charged.slots i l s hat
    rw [← tokens]
    exact s'.tokens.le_toInt
  · intro room
    refine ⟨h.configuration, h.length, fun i l s hat => ?_⟩
    obtain ⟨s', hat', tokens, rest⟩ := h.slots i l s hat
    exact ⟨s', hat', tokens.trans (max_eq_right (room i l s hat)), rest⟩

theorem charged_consume_iff {a : Account} {n : Balance} (hn : 0 ≤ n.toInt) :
    a.Charged n.toInt (a.consume n) ↔
      ∀ i l s, a.At i l s → -2 ^ 63 ≤ s.tokens.toInt - n.toInt :=
  (debited_consume hn).exact_iff

theorem Commits.debited {a a' : Account} {r : Request} {reading : UInt64} {answer : Answer}
    (h : a.Commits r reading answer a') (charged : 0 < r.charged answer) :
    ∃ work, a.refill reading = .ok work ∧ work.Debited (r.charged answer) a' := by
  cases h with
  | intro work refilled publishes answered =>
    rw [← answered] at charged ⊢
    obtain ⟨d, hd⟩ := Request.exists_grant_of_charged_pos charged
    obtain ⟨n, hn, published, charged_eq, -⟩ := Request.exists_charge hd
    cases publishes.symm.trans published
    rw [charged_eq]
    exact ⟨work, refilled, debited_consume hn.le⟩

end Account

namespace Bucket

variable {b : Bucket} {n : Amount} {r : Request} {answer : Answer}

/-- When a grant of `n` tokens charges every slot exactly `n`: when no slot falls below the least
balance. So whenever the tokens are taken at once, and for reservations wherever limits give at most
half a token in a nanosecond and no period has ever been shortened. -/
theorem charged_iff (h : b.account.Reachable) (hn : n.val.toNat < 2 ^ 63) (asks : r.Asks n)
    (answered : (b.perform r.operation).answer = .ok answer) (granted : (r.grant? answer).isSome) :
    ∃ work, b.account.refill b.clock.now = .ok work ∧
      (work.Charged n.val.toNat (b.perform r.operation).bucket.account ↔
        ∀ i l s, work.At i l s → -2 ^ 63 ≤ s.tokens.toInt - n.val.toNat) ∧
      ((∀ maxWait, r ≠ .reserve n maxWait) →
        work.Charged n.val.toNat (b.perform r.operation).bucket.account) ∧
      (b.account.ReachableBy (fun a a' => ∀ i, Account.KeepsPeriod i a a') →
        (∀ l ∈ b.account.configuration.bandwidths,
          l.refill = 0 ∨ 2 * l.refill.toNat ≤ l.period.toNat) →
        work.Charged n.val.toNat (b.perform r.operation).bucket.account) := by
  obtain ⟨work, refilled, hr, hperform⟩ := b.perform_ok r.operation
  have hp := hr.paired h.paired
  rw [hperform] at answered ⊢
  cases answered
  obtain ⟨d, hd⟩ := Option.isSome_iff_exists.mp granted
  obtain ⟨m, hm, published, charged, grants⟩ := Request.exists_charge hd
  have hmn : m.toInt = n.val.toNat := by
    rw [← charged, asks.charged_eq granted, Amount.toInt_balance]
    omega
  rw [published, settle, ← hmn]
  have hiff := Account.charged_consume_iff (a := work) hm.le
  refine ⟨work, refilled, hiff, fun unreserved => ?_, fun reachable hrate => ?_⟩
  · refine hiff.mpr fun i l s hat => ?_
    cases grants with
    | taken there =>
      have := (Account.le_available_iff hp).mp there i l s hat
      omega
    | reserved k maxWait request ends =>
      subst request
      cases asks
      exact absurd rfl (unreserved maxWait)
  · refine hiff.mpr fun i l s hat => ?_
    have hl : l ∈ b.account.configuration.bandwidths := by
      rw [← hr.configuration]
      exact List.mem_of_getElem? hat.1
    have hcarry := hr.carry_lt (fun _ => reachable.carry_lt fun _ _ keeps => keeps i) hat
    exact Slot.room_of_delay (hrate l hl) hcarry
      (Account.delay_isInfinite_iff.mp (grants.ends hp) i l s hat)

/-- Two to the 63rd tokens come back in every nanosecond. -/
def flood : Bandwidth :=
  { Bandwidth.perPeriod ⟨9223372036854775808, by decide⟩ 1 with initial := some 0 }

def most : Amount := ⟨9223372036854775807, by decide⟩

def flooded : Bucket := new .atomic (.manual 0) (.single flood (by decide))

def indebted : Bucket := (flooded.perform (Request.reserve most .infinite).operation).bucket

theorem indebted_reachable : indebted.Reachable := .perform (.new ..) _

theorem flooded_refill : flooded.account.refill flooded.clock.now =
    .ok ⟨.single flood (by decide), ⟨[⟨0, 0, 0⟩]⟩⟩ := by decide +kernel

theorem charged_flooded :
    (flooded.perform (Request.reserve most .infinite).operation).answer = .ok (.wait ⟨1⟩) ∧
      ∃ work, flooded.account.refill flooded.clock.now = .ok work ∧
        work.Charged 9223372036854775807 indebted.account := by
  have answered : (flooded.perform (Request.reserve most .infinite).operation).answer =
      .ok (.wait ⟨1⟩) := by
    rw [perform_eq flooded_refill]
    decide +kernel
  obtain ⟨work, refilled, hiff, -⟩ := charged_iff (b := flooded) (Reachable.new ..).account
    (n := most) (by decide) (.reserve .infinite) answered (by decide)
  cases flooded_refill.symm.trans refilled
  refine ⟨answered, _, refilled, hiff.mpr ?_⟩
  intro i l s hat
  obtain ⟨-, rfl⟩ := Account.at_single hat
  decide

/-- What is owed already leaves no room for as much again, but two nanoseconds would bring it back:
the reservation is granted, and a single token is charged for it. -/
theorem reserve_charges_less :
    ¬∀ (b : Bucket) (n : Amount) (r : Request) (answer : Answer) (work : Account), b.Reachable →
      n.val.toNat < 2 ^ 63 → r.Asks n → (b.perform r.operation).answer = .ok answer →
      (r.grant? answer).isSome → b.account.refill b.clock.now = .ok work →
      work.Charged n.val.toNat (b.perform r.operation).bucket.account := by
  intro h
  have hindebted : indebted.account.refill indebted.clock.now =
      .ok ⟨.single flood (by decide), ⟨[⟨-9223372036854775807, 0, 0⟩]⟩⟩ := by
    rw [indebted, perform_eq flooded_refill]
    decide +kernel
  have answered : (indebted.perform (Request.reserve most .infinite).operation).answer =
      .ok (.wait ⟨2⟩) := by
    rw [perform_eq hindebted]
    decide +kernel
  have hcharged := h indebted most _ _ _ indebted_reachable (by decide) (.reserve .infinite) answered
    (by decide) hindebted
  obtain ⟨s', -, tokens, -⟩ := hcharged.slots 0 flood _ ⟨rfl, rfl⟩
  have := s'.tokens.le_toInt
  rw [tokens] at this
  exact absurd this (by decide)

end Bucket
end Throttle
