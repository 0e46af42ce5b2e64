import Throttle.Proofs.Alone

/-! Another configuration put in force. The ledger stays as the call has refilled it, carries
included, though they were counted under the limits before. A carry that comes to several tokens of
the new limit turns into balance at the next reading. -/

namespace Throttle

namespace Slot

def given (s : Slot) (b : Bandwidth) (t : UInt64) : Nat :=
  s.elapsed t * b.refill.toNat / b.period.toNat

/-- From `s` to `s'` no more than one token comes on top of what the limit gives. -/
def MintsNone (s s' : Slot) (b : Bandwidth) (t : UInt64) : Prop :=
  s'.tokens.toInt ≤ s.tokens.toInt + s.given b t + 1

/-- At a reading the carry, with what is left of the time, makes up no second token: the reading
does not come to it, or the slot is full by then, or it is too small. -/
def CarryFits (s : Slot) (b : Bandwidth) (t : UInt64) : Prop :=
  (s.elapsed t = 0 ∨ b.refill = 0) ∨ b.ceiling.toInt ≤ s.tokens.toInt + s.given b t + 1 ∨
    s.elapsed t * b.refill.toNat % b.period.toNat + s.carry.toNat < 2 * b.period.toNat

variable {s s' : Slot} {b : Bandwidth} {t : UInt64}

theorem accrued_div (hb : 0 < b.period.toNat) :
    s.accrued b t / b.period.toNat = s.given b t +
      (s.elapsed t * b.refill.toNat % b.period.toNat + s.carry.toNat) / b.period.toNat := by
  have hdiv := Nat.div_add_mod (s.elapsed t * b.refill.toNat) b.period.toNat
  have hsum : s.accrued b t = b.period.toNat * s.given b t +
      (s.elapsed t * b.refill.toNat % b.period.toNat + s.carry.toNat) := by
    unfold accrued given; omega
  rw [hsum, Nat.mul_add_div hb]

theorem Refills.mintsNone_iff (hb : 0 < b.period.toNat) (h : s.Refills b t s') :
    s.MintsNone s' b t ↔ s.CarryFits b t := by
  have hwhole := accrued_div (s := s) (t := t) hb
  have hmore :
      (s.elapsed t * b.refill.toNat % b.period.toNat + s.carry.toNat) / b.period.toNat ≤ 1 ↔
      s.elapsed t * b.refill.toNat % b.period.toNat + s.carry.toNat < 2 * b.period.toNat := by
    rw [← Nat.lt_succ_iff, Nat.div_lt_iff_lt_mul hb]
  unfold MintsNone CarryFits
  cases h with
  | full above _ tokens _ =>
    rw [tokens]
    exact ⟨fun h => .inr (.inl h), fun _ => by omega⟩
  | idle _ none _ tokens _ =>
    rw [tokens]
    exact ⟨fun _ => .inl none, fun _ => by omega⟩
  | filled _ some enough _ tokens _ =>
    rw [tokens, ← hmore]
    constructor
    · intro h
      exact .inr (.inl h)
    · rintro (none | full | little)
      · exact absurd none (not_or.mpr some)
      · exact full
      · omega
  | grown _ some short _ tokens _ =>
    rw [tokens, ← hmore]
    constructor
    · intro h
      exact .inr (.inr (by omega))
    · rintro (none | full | little)
      · exact absurd none (not_or.mpr some)
      · omega
      · omega

theorem carryFits_of_carry_lt (hc : s.carry.toNat < b.period.toNat) : s.CarryFits b t := by
  have hmod := Nat.mod_lt (s.elapsed t * b.refill.toNat) (Nat.zero_lt_of_lt hc)
  exact .inr (.inr (by omega))

end Slot

namespace Bucket

variable {b : Bucket} {c : Configuration} {work : Account}

theorem replace_eq (refilled : b.account.refill b.clock.now = .ok work)
    (compatible : b.account.configuration.Compatible c) :
    b.perform (Operation.replace c) =
      ⟨.ok none, { b with published := b.published.succ (work.reconfigure c) },
        [.reconfigured c]⟩ := by
  have hnone : work.configuration.incompatibility? c = none := by
    rw [(Account.refills_of_ok refilled).configuration]
    exact compatible
  rw [perform_eq refilled, Operation.replace, hnone]
  rfl

theorem compatible_of_replaced (h : (b.perform (Operation.replace c)).answer = .ok none) :
    b.account.configuration.Compatible c := by
  obtain ⟨work, -, hr, hperform⟩ := b.perform_ok (Operation.replace c)
  rw [hperform, Operation.replace] at h
  split at h
  · next hnone => rwa [hr.configuration] at hnone
  · cases h

/-- When replacing a configuration mints no tokens: at every position where the carry, counted under
the new limit, makes up no second token, and so wherever no period has ever been shortened. -/
theorem replace_mintsNone_iff (b : Bucket) (c : Configuration)
    (h : (b.perform (Operation.replace c)).answer = .ok none) (t : UInt64) :
    ∃ old later, b.account.refill b.clock.now = .ok old ∧
      (b.perform (Operation.replace c)).bucket.account.refill t = .ok later ∧
      ∀ i l s, old.At i l s → ∃ l' s',
        (b.perform (Operation.replace c)).bucket.account.At i l' s ∧ later.At i l' s' ∧
        (s.MintsNone s' l' t ↔ s.CarryFits l' t) ∧
        (b.account.ReachableBy (Account.KeepsPeriod i) → l.period ≤ l'.period →
          s.MintsNone s' l' t) := by
  have compatible := compatible_of_replaced h
  obtain ⟨old, refilled, hr⟩ := b.account.refill_ok b.clock.now
  have hlength := compatible.length_eq
  rw [replace_eq refilled compatible]
  obtain ⟨later, hlater, hr'⟩ := (old.reconfigure c).refill_ok t
  refine ⟨old, later, refilled, hlater, fun i l s hat => ?_⟩
  have hi : i < c.bandwidths.length := by
    obtain ⟨hi, -⟩ := List.getElem?_eq_some_iff.mp hat.1
    rw [hr.configuration] at hi
    exact hlength ▸ hi
  have hpublished : (old.reconfigure c).At i c.bandwidths[i] s :=
    ⟨List.getElem?_eq_getElem hi, hat.2⟩
  obtain ⟨s', hat', hrefills⟩ := hr'.exists_at hpublished
  have hiff := hrefills.mintsNone_iff hpublished.valid.toNat_pos
  refine ⟨_, s', hpublished, hat', hiff, fun reachable longer => hiff.mpr ?_⟩
  have hcarry := hr.carry_lt (fun _ => reachable.carry_lt fun _ _ keeps => keeps) hat
  exact Slot.carryFits_of_carry_lt (hcarry.trans_le (UInt64.le_iff_toNat_le.mp longer))

/-- A bucket made with this limit at reading 0, when its clock has come to `t`. -/
def waited (l : Bandwidth) (valid : l.Valid) (t : UInt64) : Bucket :=
  { new .atomic (.manual 0) (.single l valid) with clock := .manual t }

theorem waited_reachable (l : Bandwidth) (valid : l.Valid) (t : UInt64) :
    (waited l valid t).Reachable := .clock (.new ..) _

def tenPerSecond : Bandwidth := { Bandwidth.perSecond ⟨10, by decide⟩ with initial := some 0 }

def tenWider : Bandwidth := { tenPerSecond with capacity := ⟨30, by decide⟩ }

def midToken : Bucket := waited tenPerSecond (by decide) 850000000

def wider : Configuration := .single tenWider (by decide)

theorem replace_mintsNone_wider :
    (midToken.perform (Operation.replace wider)).answer = .ok none ∧
      ∃ s s' : Slot, s.tokens = 8 ∧ s'.tokens = 9 ∧ s.MintsNone s' tenWider 900000000 := by
  have refilled : midToken.account.refill midToken.clock.now =
      .ok ⟨.single tenPerSecond (by decide), ⟨[⟨8, 850000000, 500000000⟩]⟩⟩ := by decide +kernel
  have hreplace := replace_eq refilled (c := wider) (by decide)
  have h : (midToken.perform (Operation.replace wider)).answer = .ok none := by rw [hreplace]
  obtain ⟨old, later, hold, hlater, hall⟩ := replace_mintsNone_iff midToken wider h 900000000
  rw [hreplace] at hlater hall
  cases hold.symm.trans refilled
  obtain ⟨l', s', hat, hat', hiff, -⟩ := hall 0 tenPerSecond ⟨8, 850000000, 500000000⟩ ⟨rfl, rfl⟩
  cases hlater
  obtain ⟨hl', hs'⟩ := hat'
  cases hl'
  cases hs'
  exact ⟨h, _, _, rfl, by decide +kernel, hiff.mpr (.inr (.inr (by decide +kernel)))⟩

def hourly : Bandwidth :=
  { Bandwidth.perHour .one with capacity := ⟨5000, by decide⟩, initial := some 0 }

def secondly : Bandwidth := { Bandwidth.perSecond .one with capacity := ⟨5000, by decide⟩ }

/-- One token comes back in an hour, and the hour is over but for a nanosecond. -/
def lateHour : Bucket := waited hourly (by decide) 3599999999999

def everySecond : Configuration := .single secondly (by decide)

theorem lateHour_refill : lateHour.account.refill lateHour.clock.now =
    .ok ⟨.single hourly (by decide), ⟨[⟨0, 3599999999999, 3599999999999⟩]⟩⟩ := by decide +kernel

/-- The carry of almost an hour is worth 3600 tokens at one token a second, and a nanosecond after
the swap they are there. -/
theorem replace_mints :
    ¬∀ (b : Bucket) (c : Configuration) (t : UInt64) (old later : Account) (i : Nat)
      (l l' : Bandwidth) (s s' : Slot), b.Reachable →
      (b.perform (Operation.replace c)).answer = .ok none → b.clock.now ≤ t →
      b.account.refill b.clock.now = .ok old →
      (b.perform (Operation.replace c)).bucket.account.refill t = .ok later →
      old.At i l s → later.At i l' s' → s.MintsNone s' l' t := by
  intro h
  have hreplace := replace_eq lateHour_refill (c := everySecond) (by decide)
  have hlater : (lateHour.perform (Operation.replace everySecond)).bucket.account.refill
      3600000000000 = .ok ⟨everySecond, ⟨[⟨3600, 3600000000000, 0⟩]⟩⟩ := by
    rw [hreplace]
    decide +kernel
  have hmints := h lateHour everySecond 3600000000000 _ _ 0 hourly secondly _ _
    (waited_reachable ..) (by rw [hreplace]) (by decide) lateHour_refill hlater ⟨rfl, rfl⟩ ⟨rfl, rfl⟩
  exact absurd hmints (by unfold Slot.MintsNone; decide +kernel)

end Bucket
end Throttle
