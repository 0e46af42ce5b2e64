import Throttle.Proofs.Accruals
import Throttle.Proofs.Probes

/-! Waits and readings. A wait divides what is owed, less the carry, by the rate and rounds up; a
reading multiplies time by the rate, adds the carry, rounds down and stops at the ceiling. The two
meet exactly: a time is as long as the wait when, and only when, the reading after it finds the
tokens. -/

namespace Throttle

namespace Slot

variable {s : Slot} {b : Bandwidth} {n : Balance} {w : Nanos}

theorem delay_le_iff_refilled (hb : b.period ≠ 0) (hc : s.carry.toNat < b.period.toNat)
    (hn : n.toInt ≤ b.ceiling.toInt) (ends : ¬w.isInfinite)
    (reaches : s.lastRefill.toNat + w.val.toNat < 2 ^ 64) :
    s.delay b n ≤ w ↔ n.toInt ≤ (s.refilled b (s.lastRefill + w.val)).tokens.toInt := by
  have hr : s.Refills b (s.lastRefill + w.val) (s.refilled b (s.lastRefill + w.val)) :=
    refills_of_ok hb (refill_eq hb s _)
  have helapsed : s.elapsed (s.lastRefill + w.val) = w.val.toNat := by
    rw [elapsed, UInt64.toNat_add, Nat.mod_eq_of_lt reaches, Nat.add_sub_cancel_left]
  have hlt := w.val.toNat_lt
  rw [Nanos.isInfinite_iff] at ends
  rw [Nanos.le_iff, toNat_delay_le_iff_worth hc (by omega), hr.le_tokens_iff hc hn, helapsed]

end Slot

namespace Ledger

variable {l : Ledger} {bs : List Bandwidth} {L : UInt64} {n : Balance} {w : Nanos}

/-- Waiting and refilling are adjoint. From slots that have all been refilled up to `L`, the reading
`w` nanoseconds on makes `n` tokens available exactly when the delay for them is at most `w`; a delay
that never ends is longer than any such time. -/
theorem delay_refill_adjoint (nonempty : l.slots ≠ []) (paired : l.slots.length = bs.length)
    (moves : ∀ b ∈ bs, b.period ≠ 0) (aligned : ∀ s ∈ l.slots, s.lastRefill = L)
    (carries : ∀ p ∈ l.slots.zip bs, p.1.carry < p.2.period) (fits : ∀ b ∈ bs, n ≤ b.ceiling)
    (ends : ¬w.isInfinite) (reaches : L.toNat + w.val.toNat < 2 ^ 64) :
    ∃ later, l.refill bs (L + w.val) = .ok later ∧ (n ≤ later.available ↔ l.delay bs n ≤ w) := by
  have hslots : (l.refilled bs (L + w.val)).slots =
      (l.slots.zip bs).map fun p => p.1.refilled p.2 (L + w.val) :=
    onSlots_eq_map_zip _ paired.le
  have hlength := congrArg List.length hslots
  rw [List.length_map, List.length_zip, ← paired, min_self] at hlength
  have hne : (l.refilled bs (L + w.val)).slots ≠ [] := by
    rw [← List.length_pos_iff, hlength]
    exact List.length_pos_iff.mpr nonempty
  refine ⟨l.refilled bs (L + w.val), refill_eq moves l _, ?_⟩
  rw [Int64.le_iff_toInt_le, le_available_iff hne, hslots, List.forall_mem_map, delay_le_iff]
  refine forall₂_congr fun p hp => ?_
  obtain ⟨hs, hb⟩ := List.of_mem_zip hp
  obtain rfl := aligned p.1 hs
  exact (Slot.delay_le_iff_refilled (moves p.2 hb) (UInt64.lt_iff_toNat_lt.mp (carries p hp))
    (Int64.le_iff_toInt_le.mp (fits p.2 hb)) ends reaches).symm

/-- As many tokens in every nanosecond as a word holds, and 24 in every hundred. -/
def torrentAndTrickle : List Bandwidth :=
  [.perPeriod ⟨18446744073709551615, by decide⟩ 1, .perPeriod ⟨24, by decide⟩ 100]

def owing : Ledger := ⟨[⟨-9223372036854775808, 1000, 0⟩, ⟨-1, 1000, 76⟩]⟩

/-- The fast limit has paid its debt after a nanosecond, and the slow one has two tokens after ten and
no sooner. -/
theorem delay_refill_adjoint_owing :
    owing.delay torrentAndTrickle 2 = ⟨10⟩ ∧
      (∃ later, owing.refill torrentAndTrickle 1010 = .ok later ∧ 2 ≤ later.available) ∧
      ∃ early, owing.refill torrentAndTrickle 1009 = .ok early ∧ ¬2 ≤ early.available := by
  have hdelay : owing.delay torrentAndTrickle 2 = ⟨10⟩ := by decide +kernel
  have moves : ∀ b ∈ torrentAndTrickle, b.period ≠ 0 := by decide
  have aligned : ∀ s ∈ owing.slots, s.lastRefill = 1000 := by decide
  have carries : ∀ p ∈ owing.slots.zip torrentAndTrickle, p.1.carry < p.2.period := by decide
  have fits : ∀ b ∈ torrentAndTrickle, (2 : Balance) ≤ b.ceiling := by decide
  obtain ⟨later, hlater, hdue⟩ := delay_refill_adjoint (w := ⟨10⟩) (by decide) rfl moves aligned
    carries fits (by decide) (by decide)
  obtain ⟨early, hearly, hsoon⟩ := delay_refill_adjoint (w := ⟨9⟩) (by decide) rfl moves aligned
    carries fits (by decide) (by decide)
  rw [hdelay] at hdue hsoon
  refine ⟨hdelay, ⟨later, hlater, hdue.mpr (by decide)⟩, early, hearly, fun h => ?_⟩
  exact absurd (hsoon.mp h) (by decide)

end Ledger

end Throttle
