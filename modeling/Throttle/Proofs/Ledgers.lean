import Throttle.Account
import Throttle.Proofs.Slots

/-! A ledger read position by position. Every operation on a ledger is an operation on each of its
slots, the available tokens are the least balance and the delay is the longest. -/

namespace Throttle

theorem Bandwidth.Valid.toNat_pos {b : Bandwidth} (h : b.Valid) : 0 < b.period.toNat :=
  Nat.pos_of_ne_zero fun hz => h.1 (UInt64.toNat_inj.mp hz)

def Configuration.single (b : Bandwidth) (h : b.Valid) : Configuration :=
  ⟨[b], List.cons_ne_nil b [], by simpa using h⟩

namespace Ledger

theorem refillSlots_ok (now : UInt64) : ∀ (ss : List Slot) (bs : List Bandwidth),
    (∀ b ∈ bs, b.Valid) → ∃ ss', refillSlots now ss bs = .ok ss' ∧ ss'.length = ss.length ∧
      ∀ (i : Nat) (b : Bandwidth) (s' : Slot), bs[i]? = some b → ss'[i]? = some s' →
        ∃ s : Slot, ss[i]? = some s ∧ s.Refills b now s' := by
  intro ss
  induction ss with
  | nil => intro bs _; exact ⟨[], by simp [refillSlots], rfl, by simp⟩
  | cons s ss ih =>
    intro bs hbs
    cases bs with
    | nil => exact ⟨s :: ss, rfl, rfl, by simp⟩
    | cons b bs =>
      obtain ⟨hb, hbs⟩ := List.forall_mem_cons.mp hbs
      obtain ⟨s', hs', hr⟩ := Slot.refill_ok hb.1 s now
      obtain ⟨ss', hss', hlen, hpos⟩ := ih bs hbs
      refine ⟨s' :: ss', by simp [refillSlots, hs', hss'], by simp [hlen], ?_⟩
      intro i b₀ s₀ hb₀ hs₀
      cases i with
      | zero =>
        simp only [List.getElem?_cons_zero, Option.some.injEq] at hb₀ hs₀
        subst hb₀ hs₀
        exact ⟨s, rfl, hr⟩
      | succ i => exact hpos i b₀ s₀ hb₀ hs₀

theorem copyFrom_eq (l source : Ledger) : l.copyFrom source = source := by
  unfold copyFrom
  split
  · next h =>
    congr 1
    apply List.ext_getElem
    · simp [h]
    · simp
  · rfl

theorem getElem?_addSlots (n : Balance) : ∀ (ss : List Slot) (bs : List Bandwidth) (i : Nat),
    (addSlots n ss bs)[i]? =
      (ss[i]?).map fun s => match bs[i]? with | some b => s.add b n | none => s := by
  intro ss
  induction ss with
  | nil => intro bs i; simp [addSlots]
  | cons s ss ih =>
    intro bs i
    cases bs with
    | nil => simp [addSlots]
    | cons b bs =>
      cases i with
      | zero => simp [addSlots]
      | succ i => simpa [addSlots] using ih bs i

theorem length_addSlots (n : Balance) (ss : List Slot) (bs : List Bandwidth) :
    (addSlots n ss bs).length = ss.length := by
  induction ss generalizing bs with
  | nil => rfl
  | cons s ss ih => cases bs <;> simp [addSlots, ih]

theorem refillSlots_eq_self {now : UInt64} {ss : List Slot} {bs : List Bandwidth}
    (h : ∀ p ∈ ss.zip bs, p.1.refill p.2 now = .ok p.1) : refillSlots now ss bs = .ok ss := by
  induction ss generalizing bs with
  | nil => cases bs <;> rfl
  | cons s ss ih =>
    cases bs with
    | nil => rfl
    | cons b bs =>
      obtain ⟨hs, hss⟩ := List.forall_mem_cons.mp h
      simp only [refillSlots, hs, ih hss]

theorem le_available_iff {l : Ledger} (h : l.slots ≠ []) {n : Balance} :
    n.toInt ≤ l.available.toInt ↔ ∀ s ∈ l.slots, n.toInt ≤ s.tokens.toInt := by
  have hne : l.slots.map (·.tokens) ≠ [] := fun hnil => h (List.map_eq_nil_iff.mp hnil)
  obtain ⟨m, hm⟩ := Option.isSome_iff_exists.mp (List.isSome_min?_of_ne_nil hne)
  rw [available, hm, Option.getD_some, ← Int64.le_iff_toInt_le, List.le_min?_iff hm,
    List.forall_mem_map]
  simp only [Int64.le_iff_toInt_le]

theorem delay_le_iff (l : Ledger) (bs : List Bandwidth) (n : Balance) {w : Nanos} :
    l.delay bs n ≤ w ↔ ∀ p ∈ l.slots.zip bs, p.1.delay p.2 n ≤ w := by
  have hmem : (∀ p ∈ l.slots.zip bs, p.1.delay p.2 n ≤ w) ↔
      ∀ d ∈ List.zipWith (fun s b => Slot.delay s b n) l.slots bs, d ≤ w := by
    rw [← List.map_uncurry_zip_eq_zipWith, List.forall_mem_map]
    rfl
  rw [hmem, delay]
  generalize List.zipWith (fun s b => Slot.delay s b n) l.slots bs = ds
  cases hm : ds.max? with
  | none =>
    rw [List.max?_eq_none_iff] at hm
    subst hm
    simp only [Option.getD_none, Nanos.le_iff, List.not_mem_nil, false_imp_iff, implies_true,
      iff_true]
    exact Nat.zero_le _
  | some d => exact List.max?_le_iff hm

end Ledger

namespace Account

/-- At position `i` the account keeps slot `s` under limit `b`. -/
def At (a : Account) (i : Nat) (b : Bandwidth) (s : Slot) : Prop :=
  a.configuration.bandwidths[i]? = some b ∧ a.ledger.slots[i]? = some s

def Paired (a : Account) : Prop := a.ledger.slots.length = a.configuration.bandwidths.length

theorem At.valid {a : Account} {i : Nat} {b : Bandwidth} {s : Slot} (h : a.At i b s) : b.Valid :=
  a.configuration.valid b (List.mem_of_getElem? h.1)

theorem At.unique {a : Account} {i : Nat} {b b' : Bandwidth} {s s' : Slot} (h : a.At i b s)
    (h' : a.At i b' s') : b = b' ∧ s = s' :=
  ⟨Option.some.inj (h.1.symm.trans h'.1), Option.some.inj (h.2.symm.trans h'.2)⟩

theorem Paired.exists_at {a : Account} (h : a.Paired) {i : Nat} {b : Bandwidth}
    (hb : a.configuration.bandwidths[i]? = some b) : ∃ s, a.At i b s := by
  obtain ⟨hi, -⟩ := List.getElem?_eq_some_iff.mp hb
  have hi : i < a.ledger.slots.length := h ▸ hi
  exact ⟨_, hb, List.getElem?_eq_getElem hi⟩

theorem Paired.exists_at_slot {a : Account} (h : a.Paired) {i : Nat} {s : Slot}
    (hs : a.ledger.slots[i]? = some s) : ∃ b, a.At i b s := by
  obtain ⟨hi, -⟩ := List.getElem?_eq_some_iff.mp hs
  have hi : i < a.configuration.bandwidths.length := h ▸ hi
  exact ⟨_, List.getElem?_eq_getElem hi, hs⟩

theorem Paired.slots_ne_nil {a : Account} (h : a.Paired) : a.ledger.slots ≠ [] := by
  have := a.configuration.nonempty
  rwa [← List.length_pos_iff, ← h, List.length_pos_iff] at this

theorem mem_zip_iff {a : Account} {p : Slot × Bandwidth} :
    p ∈ a.ledger.slots.zip a.configuration.bandwidths ↔ ∃ i, a.At i p.2 p.1 := by
  rw [List.mem_iff_getElem?]
  refine exists_congr fun i => ?_
  rw [List.getElem?_zip_eq_some]
  exact And.comm

theorem at_single {b l : Bandwidth} {hb : b.Valid} {s₀ s : Slot} {i : Nat}
    (h : At ⟨.single b hb, ⟨[s₀]⟩⟩ i l s) : l = b ∧ s = s₀ := by
  obtain ⟨hl, hs⟩ := h
  cases i with
  | zero => exact ⟨(Option.some.inj hl).symm, (Option.some.inj hs).symm⟩
  | succ i => cases hl

theorem new_paired (c : Configuration) (now : UInt64) : (new c now).Paired := by
  simp [Paired, new, Ledger.new]

theorem new_at {c : Configuration} {now : UInt64} {i : Nat} {b : Bandwidth} {s : Slot} :
    (new c now).At i b s ↔ c.bandwidths[i]? = some b ∧ s = Slot.new b now := by
  constructor
  · rintro ⟨hb, hs⟩
    change c.bandwidths[i]? = some b at hb
    simp only [new, Ledger.new, List.getElem?_map, hb, Option.map_some, Option.some.injEq] at hs
    exact ⟨hb, hs.symm⟩
  · rintro ⟨hb, rfl⟩
    exact ⟨hb, by simp [new, Ledger.new, hb]⟩

structure Refills (a : Account) (now : UInt64) (a' : Account) : Prop where
  configuration : a'.configuration = a.configuration
  length : a'.ledger.slots.length = a.ledger.slots.length
  slots : ∀ {i b s'}, a'.At i b s' → ∃ s, a.At i b s ∧ s.Refills b now s'

/-- An account can always be refilled: its limits have been validated. -/
theorem refill_ok (a : Account) (now : UInt64) : ∃ a', a.refill now = .ok a' ∧ a.Refills now a' := by
  obtain ⟨ss', hss', hlen, hpos⟩ :=
    Ledger.refillSlots_ok now a.ledger.slots a.configuration.bandwidths a.configuration.valid
  refine ⟨{ a with ledger := ⟨ss'⟩ }, by simp [refill, Ledger.refill, hss'], rfl, hlen, ?_⟩
  intro i b s' hat
  obtain ⟨s, hs, hr⟩ := hpos i b s' hat.1 hat.2
  exact ⟨s, ⟨hat.1, hs⟩, hr⟩

theorem refills_of_ok {a a' : Account} {now : UInt64} (h : a.refill now = .ok a') :
    a.Refills now a' := by
  obtain ⟨a₁, h₁, hr⟩ := refill_ok a now
  rw [h] at h₁
  cases h₁
  exact hr

theorem Refills.exists_at {a a' : Account} {now : UInt64} (h : a.Refills now a') {i : Nat}
    {b : Bandwidth} {s : Slot} (hat : a.At i b s) : ∃ s', a'.At i b s' ∧ s.Refills b now s' := by
  obtain ⟨hi, -⟩ := List.getElem?_eq_some_iff.mp hat.2
  have hi : i < a'.ledger.slots.length := h.length ▸ hi
  have hat' : a'.At i b a'.ledger.slots[i] :=
    ⟨by rw [h.configuration, hat.1], List.getElem?_eq_getElem hi⟩
  obtain ⟨s₀, hat₀, hr⟩ := h.slots hat'
  obtain ⟨-, rfl⟩ := hat₀.unique hat
  exact ⟨_, hat', hr⟩

theorem Refills.carry_lt {a a' : Account} {now : UInt64} (h : a.Refills now a') {i : Nat}
    {b : Bandwidth} (hc : ∀ s, a.At i b s → s.carry.toNat < b.period.toNat) {s' : Slot}
    (hat : a'.At i b s') : s'.carry.toNat < b.period.toNat := by
  obtain ⟨s, hs, hr⟩ := h.slots hat
  exact hr.carry_lt (hc s hs)

theorem Refills.paired {a a' : Account} {now : UInt64} (h : a.Refills now a') (hp : a.Paired) :
    a'.Paired := by rw [Paired, h.length, h.configuration]; exact hp

theorem copyFrom_eq (a source : Account) : a.copyFrom source = source := by
  rw [copyFrom, Ledger.copyFrom_eq]

theorem consume_at {a : Account} {n : Balance} {i : Nat} {b : Bandwidth} {s' : Slot} :
    (a.consume n).At i b s' ↔ ∃ s, a.At i b s ∧ s' = s.consume n := by
  simp only [At, consume, Ledger.consume, List.getElem?_map, Option.map_eq_some_iff]
  constructor
  · rintro ⟨hb, s, hs, rfl⟩; exact ⟨s, ⟨hb, hs⟩, rfl⟩
  · rintro ⟨s, ⟨hb, hs⟩, rfl⟩; exact ⟨hb, s, hs, rfl⟩

theorem consume_paired {a : Account} (n : Balance) (h : a.Paired) : (a.consume n).Paired := by
  simpa [Paired, consume, Ledger.consume] using h

/-- A charged account is as it was at another reading of the same time. -/
theorem Refills.refill_consume {a work : Account} {t : UInt64} (h : a.Refills t work) {n : Balance}
    (hn : 0 < n.toInt) : (work.consume n).refill t = .ok (work.consume n) := by
  have hslots : Ledger.refillSlots t (work.consume n).ledger.slots
      (work.consume n).configuration.bandwidths = .ok (work.consume n).ledger.slots := by
    refine Ledger.refillSlots_eq_self fun p hp => ?_
    obtain ⟨i, hat⟩ := mem_zip_iff.mp hp
    obtain ⟨s, hs, hcharged⟩ := consume_at.mp hat
    obtain ⟨s₀, -, hr⟩ := h.slots hs
    rw [hcharged]
    exact hr.refill_consume hn
  simp only [refill, Ledger.refill, hslots]

theorem add_at {a : Account} {n : Balance} {i : Nat} {b : Bandwidth} {s' : Slot} :
    (a.add n).At i b s' ↔ ∃ s, a.At i b s ∧ s' = s.add b n := by
  simp only [At, add, Ledger.add, Ledger.getElem?_addSlots, Option.map_eq_some_iff]
  constructor
  · rintro ⟨hb, s, hs, rfl⟩; exact ⟨s, ⟨hb, hs⟩, by rw [hb]⟩
  · rintro ⟨s, ⟨hb, hs⟩, rfl⟩; exact ⟨hb, s, hs, by rw [hb]⟩

theorem add_paired {a : Account} (n : Balance) (h : a.Paired) : (a.add n).Paired := by
  simpa [Paired, add, Ledger.add, Ledger.length_addSlots] using h

theorem le_available_iff {a : Account} (h : a.Paired) {n : Balance} :
    n.toInt ≤ a.available.toInt ↔ ∀ i b s, a.At i b s → n.toInt ≤ s.tokens.toInt := by
  rw [available, Ledger.le_available_iff h.slots_ne_nil]
  constructor
  · intro hall i b s hat
    exact hall s (List.mem_of_getElem? hat.2)
  · intro hall s hs
    obtain ⟨i, hi⟩ := List.mem_iff_getElem?.mp hs
    obtain ⟨b, hat⟩ := h.exists_at_slot hi
    exact hall i b s hat

theorem delay_le_iff (a : Account) (n : Balance) {w : Nanos} :
    a.delay n ≤ w ↔ ∀ i b s, a.At i b s → s.delay b n ≤ w := by
  rw [delay, Ledger.delay_le_iff]
  constructor
  · intro hall i b s hat
    exact hall (s, b) (mem_zip_iff.mpr ⟨i, hat⟩)
  · intro hall p hp
    obtain ⟨i, hat⟩ := mem_zip_iff.mp hp
    exact hall i p.2 p.1 hat

theorem toNat_delay_le (a : Account) (n : Balance) {w : Nat} (hw : w < 2 ^ 64) :
    (a.delay n).val.toNat ≤ w ↔ ∀ i b s, a.At i b s → (s.delay b n).val.toNat ≤ w := by
  have hval : (Nanos.ofNat w).val.toNat = w := by rw [Nanos.toNat_ofNat]; omega
  have hall := delay_le_iff a n (w := .ofNat w)
  simp only [Nanos.le_iff, hval] at hall
  exact hall

theorem delay_isZero_iff {a : Account} {n : Balance} :
    (a.delay n).isZero ↔ ∀ i b s, a.At i b s → (s.delay b n).isZero := by
  have h := delay_le_iff a n (w := Nanos.zero)
  have hz : ∀ d : Nanos, d ≤ Nanos.zero ↔ d.isZero := by
    intro d
    rw [Nanos.le_iff, Nanos.isZero_iff]
    exact Nat.le_zero
  simpa only [hz] using h

theorem delay_isInfinite_iff {a : Account} {n : Balance} :
    ¬(a.delay n).isInfinite ↔ ∀ i b s, a.At i b s → ¬(s.delay b n).isInfinite := by
  have h := delay_le_iff a n (w := ⟨0xfffffffffffffffe⟩)
  have hz : ∀ d : Nanos, d ≤ ⟨0xfffffffffffffffe⟩ ↔ ¬d.isInfinite := by
    intro d
    have := d.val.toNat_lt
    rw [Nanos.le_iff, Nanos.isInfinite_iff]
    change d.val.toNat ≤ 18446744073709551614 ↔ _
    omega
  simpa only [hz] using h

end Account
end Throttle
