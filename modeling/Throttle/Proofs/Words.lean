import Mathlib.Tactic.Linarith
import Throttle.Nanos
import Throttle.Bandwidth

/-! What words are worth as numbers: balances that stop at the ends of their range, amounts and
ceilings as balances, and spans that become infinite. -/

namespace Throttle

theorem toInt_ofIntClamp (n : Int) :
    (Int64.ofIntClamp n).toInt = max (-2 ^ 63) (min n (2 ^ 63 - 1)) := by
  have hmin : Int64.minValue.toInt = -2 ^ 63 := Int64.toInt_minValue
  have hmax : Int64.maxValue.toInt = 2 ^ 63 - 1 := Int64.toInt_maxValue
  unfold Int64.ofIntClamp
  split
  · split
    · rw [Int64.toInt_ofIntLE]; omega
    · omega
  · omega

theorem toNat_ofNatClamp (n : Nat) : (UInt64.ofNatClamp n).toNat = min n (2 ^ 64 - 1) := by
  rcases lt_or_ge n UInt64.size with h | h
  · rw [UInt64.toNat_ofNatClamp_of_lt h]
    exact (min_eq_left (Nat.le_pred_of_lt h)).symm
  · rw [UInt64.toNat_ofNatClamp_of_le h]
    exact (min_eq_right (Nat.sub_le_of_le_add (Nat.le_succ_of_le h))).symm

theorem toNat_mul_add_lt (a b c : UInt64) : a.toNat * b.toNat + c.toNat < 2 ^ 128 := by
  have ha := a.toNat_lt
  have hb := b.toNat_lt
  have hc := c.toNat_lt
  have hprod : a.toNat * b.toNat ≤ (2 ^ 64 - 1) * (2 ^ 64 - 1) := Nat.mul_le_mul (by omega) (by omega)
  omega

namespace Balance

theorem toInt_add (a b : Balance) :
    (a.add b).toInt = max (-2 ^ 63) (min (a.toInt + b.toInt) (2 ^ 63 - 1)) :=
  toInt_ofIntClamp _

theorem toInt_sub (a b : Balance) :
    (a.sub b).toInt = max (-2 ^ 63) (min (a.toInt - b.toInt) (2 ^ 63 - 1)) :=
  toInt_ofIntClamp _

theorem toInt_min (a b : Balance) : (min a b).toInt = min a.toInt b.toInt := by
  change (if a ≤ b then a else b).toInt = _
  split
  · next h => rw [Int64.le_iff_toInt_le] at h; omega
  · next h => rw [Int64.le_iff_toInt_le] at h; omega

theorem exists_ofInt?_eq_some {n : Int} (lo : -2 ^ 63 ≤ n) (hi : n < 2 ^ 63) :
    ∃ a, ofInt? n = some a ∧ a.toInt = n := by
  have hmin : Int64.minValue.toInt = -2 ^ 63 := Int64.toInt_minValue
  have hmax : Int64.maxValue.toInt = 2 ^ 63 - 1 := Int64.toInt_maxValue
  exact ⟨_, if_pos (by omega), Int64.toInt_ofInt_of_le lo hi⟩

theorem toInt_ofInt?_getD {n : Int} (lo : -2 ^ 63 ≤ n) (hi : n < 2 ^ 63) (other : Balance) :
    ((ofInt? n).getD other).toInt = n := by
  obtain ⟨a, ha, hn⟩ := exists_ofInt?_eq_some lo hi
  rw [ha, Option.getD_some, hn]

end Balance

namespace Wide

theorem unsigned_ok {n : Nat} (h : n < 0x100000000000000000000000000000000) :
    unsigned n = .ok n := if_pos h

theorem signed_ok {n : Int} (lo : -0x80000000000000000000000000000000 ≤ n)
    (hi : n < 0x80000000000000000000000000000000) : signed n = .ok n := if_pos ⟨lo, hi⟩

theorem magnitude_ok {n : Int} (h : 0 ≤ n) : magnitude n = .ok n.toNat := if_pos h

theorem word_ok {n : Nat} (h : n < 0x10000000000000000) : word n = .ok (UInt64.ofNat n) := if_pos h

theorem divMod_ok {n d : Nat} (h : d ≠ 0) : divMod n d = .ok (n / d, n % d) := if_neg h

theorem divMod_zero (n : Nat) : divMod n 0 = .error .divisionByZero := rfl

end Wide

theorem Amount.toInt_balance (n : Amount) :
    n.balance.toInt = min (n.val.toNat : Int) (2 ^ 63 - 1) := by
  rw [Amount.balance, toInt_ofIntClamp]; omega

theorem Amount.balance_pos (n : Amount) : 0 < n.balance.toInt := by
  have h : n.val.toNat ≠ 0 := fun h => n.positive (UInt64.toNat_inj.mp h)
  rw [toInt_balance]; omega

namespace Nanos

theorem toNat_ofNat (n : Nat) : (ofNat n).val.toNat = min n (2 ^ 64 - 1) := toNat_ofNatClamp n

theorem isZero_iff {d : Nanos} : d.isZero ↔ d.val.toNat = 0 := by
  rw [isZero, beq_iff_eq]
  constructor
  · rintro rfl; rfl
  · intro h
    have : d.val = 0 := UInt64.toNat_inj.mp h
    cases d; simp_all [zero]

theorem isInfinite_iff {d : Nanos} : d.isInfinite ↔ d.val.toNat = 2 ^ 64 - 1 := by
  rw [isInfinite, beq_iff_eq]
  constructor
  · rintro rfl; rfl
  · intro h
    have : d.val = 0xffffffffffffffff := UInt64.toNat_inj.mp h
    cases d; simp_all [infinite]

theorem le_iff {a b : Nanos} : a ≤ b ↔ a.val.toNat ≤ b.val.toNat := UInt64.le_iff_toNat_le

instance : Std.LawfulOrderSup Nanos where
  max_le_iff a b c := by
    change (if a ≤ b then b else a) ≤ c ↔ _
    split <;> simp only [le_iff] at * <;> omega

instance : Std.MaxEqOr Nanos where
  max_eq_or a b := by
    change (if a ≤ b then b else a) = a ∨ (if a ≤ b then b else a) = b
    split
    · exact .inr rfl
    · exact .inl rfl

theorem lt_iff {a b : Nanos} : a < b ↔ a.val.toNat < b.val.toNat := UInt64.lt_iff_toNat_lt

instance : PartialOrder Nanos where
  le_refl a := le_iff.mpr (Nat.le_refl _)
  le_trans a b c hab hbc := le_iff.mpr (Nat.le_trans (le_iff.mp hab) (le_iff.mp hbc))
  lt_iff_le_not_ge a b := by
    rw [le_iff, le_iff, lt_iff]
    omega
  le_antisymm a b hab hba :=
    congrArg mk (UInt64.toNat_inj.mp (Nat.le_antisymm (le_iff.mp hab) (le_iff.mp hba)))

end Nanos
end Throttle
