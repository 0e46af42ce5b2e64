import Throttle.Proofs.Ledgers

/-! Refills and additions in any order. A reading in between only splits the time, for what it leaves
of the period is carried to the next one, and tokens given back can as well be given back last. Both
hold at the ceiling too, where the carry is lost: a slot that has come to it stays there. So any
number of readings and additions, in any order, is one reading and one addition, and a charge that is
given back later is none. -/

namespace Throttle

namespace Slot

/-- The whole tokens that come back up to a reading. Where no time brings any, the carry alone makes
up none. -/
def gain (s : Slot) (b : Bandwidth) (t : UInt64) : Nat :=
  if s.elapsed t * b.refill.toNat = 0 then 0 else s.accrued b t / b.period.toNat

/-- What is carried beyond these tokens. -/
def rest (s : Slot) (b : Bandwidth) (t : UInt64) : Nat :=
  if s.elapsed t * b.refill.toNat = 0 then s.carry.toNat else s.accrued b t % b.period.toNat

/-- The slot with `n` more tokens, as far as its ceiling allows, and another timestamp and carry. -/
def raised (s : Slot) (b : Bandwidth) (n : Nat) (last carry : UInt64) : Slot :=
  if b.ceiling.toInt ≤ s.tokens.toInt + n then ⟨b.ceiling, last, 0⟩
  else ⟨Int64.ofInt (s.tokens.toInt + n), last, carry⟩

/-- The slot with the time up to a reading turned into tokens. -/
def refilled (s : Slot) (b : Bandwidth) (t : UInt64) : Slot :=
  s.raised b (s.gain b t) (max s.lastRefill t) (UInt64.ofNat (s.rest b t))

def credited (s : Slot) (b : Bandwidth) (n : Nat) : Slot := s.raised b n s.lastRefill s.carry

variable {s : Slot} {b : Bandwidth} {t t' last carry : UInt64} {m n : Nat}

theorem ext_toInt {s s' : Slot} (tokens : s.tokens.toInt = s'.tokens.toInt)
    (last : s.lastRefill = s'.lastRefill) (carry : s.carry = s'.carry) : s = s' := by
  cases s
  cases s'
  simp_all [Int64.toInt_inj]

theorem raised_full (full : b.ceiling.toInt ≤ s.tokens.toInt + n) :
    s.raised b n last carry = ⟨b.ceiling, last, 0⟩ := if_pos full

theorem raised_short (short : s.tokens.toInt + n < b.ceiling.toInt) :
    s.raised b n last carry = ⟨Int64.ofInt (s.tokens.toInt + n), last, carry⟩ :=
  if_neg (not_le.mpr short)

theorem toInt_ofInt_short (short : s.tokens.toInt + n < b.ceiling.toInt) :
    (Int64.ofInt (s.tokens.toInt + n)).toInt = s.tokens.toInt + n := by
  have := s.tokens.le_toInt
  have := b.ceiling.toInt_lt
  exact Int64.toInt_ofInt_of_le (by omega) (by omega)

@[simp] theorem raised_lastRefill : (s.raised b n last carry).lastRefill = last := by
  unfold raised
  split <;> rfl

@[simp] theorem refilled_lastRefill : (s.refilled b t).lastRefill = max s.lastRefill t :=
  raised_lastRefill

@[simp] theorem credited_lastRefill : (s.credited b n).lastRefill = s.lastRefill := raised_lastRefill

theorem raised_raised {last' carry' : UInt64} :
    (s.raised b m last carry).raised b n last' carry' = s.raised b (m + n) last' carry' := by
  by_cases full : b.ceiling.toInt ≤ s.tokens.toInt + m
  · rw [raised_full full, raised_full (by dsimp only; omega), raised_full (by omega)]
  · have short : s.tokens.toInt + m < b.ceiling.toInt := not_le.mp full
    rw [raised_short short]
    simp only [raised, toInt_ofInt_short short, Nat.cast_add, add_assoc]

theorem refill_eq (hb : b.period ≠ 0) (s : Slot) (t : UInt64) :
    s.refill b t = .ok (s.refilled b t) := by
  have hp : 0 < b.period.toNat := Nat.pos_of_ne_zero fun h => hb (UInt64.toNat_inj.mp h)
  obtain ⟨s', hs', hr⟩ := refill_ok hb s t
  have hlast : s'.lastRefill = max s.lastRefill t := by
    apply UInt64.toNat_inj.mp
    rw [hr.lastRefill_eq, UInt64.toNat_max]
  have hmoves : s.elapsed t ≠ 0 ∧ b.refill ≠ 0 → s.elapsed t * b.refill.toNat ≠ 0 :=
    fun ⟨he, hr⟩ => Nat.mul_ne_zero he fun h => hr (UInt64.toNat_inj.mp h)
  rw [hs', refilled]
  congr 1
  cases hr with
  | full above _ tokens carry =>
    rw [raised_full (by omega)]
    exact ext_toInt (by rw [tokens]) hlast carry
  | idle below none _ tokens carry =>
    have hstill : s.elapsed t * b.refill.toNat = 0 := by rcases none with h | h <;> simp [h]
    rw [gain, rest, if_pos hstill, if_pos hstill, raised_short (by simpa using below)]
    refine ext_toInt ?_ hlast ?_
    · rw [tokens, toInt_ofInt_short (b := b) (by simpa using below)]
      simp
    · rw [carry, UInt64.ofNat_toNat]
  | filled _ some enough _ tokens carry =>
    rw [gain, if_neg (hmoves some), raised_full enough]
    exact ext_toInt (by rw [tokens]) hlast carry
  | grown _ some short _ tokens carry =>
    rw [gain, rest, if_neg (hmoves some), if_neg (hmoves some), raised_short short]
    refine ext_toInt ?_ hlast ?_
    · rw [tokens, toInt_ofInt_short short]
    · rw [← carry, UInt64.ofNat_toNat]

theorem add_eq {n : Balance} (hn : 0 ≤ n.toInt) : s.add b n = s.credited b n.toInt.toNat := by
  have hcast : (n.toInt.toNat : Int) = n.toInt := Int.toNat_of_nonneg hn
  rcases add_cases s b hn with ⟨full, tokens, carry⟩ | ⟨short, tokens, carry⟩
  · rw [credited, raised_full (by omega)]
    exact ext_toInt (by rw [tokens]) (add_lastRefill ..) carry
  · have short : s.tokens.toInt + n.toInt.toNat < b.ceiling.toInt := by omega
    rw [credited, raised_short short]
    exact ext_toInt (by rw [tokens, toInt_ofInt_short short, hcast]) (add_lastRefill ..) carry

theorem rest_lt (hb : b.period ≠ 0) : s.rest b t < 2 ^ 64 := by
  have hp : 0 < b.period.toNat := Nat.pos_of_ne_zero fun h => hb (UInt64.toNat_inj.mp h)
  unfold rest
  split
  · exact s.carry.toNat_lt
  · exact (Nat.mod_lt _ hp).trans b.period.toNat_lt

/-- The time up to the later of two readings, taken in two parts with the rest of the first carried to
the second, brings as much as in one. -/
theorem gain_max (hb : b.period ≠ 0) (s₁ : Slot) (t' : UInt64)
    (last : s₁.lastRefill = max s.lastRefill t) (carry : s₁.carry.toNat = s.rest b t) :
    s.gain b (max t t') = s.gain b t + s₁.gain b t' ∧ s.rest b (max t t') = s₁.rest b t' := by
  have hp : 0 < b.period.toNat := Nat.pos_of_ne_zero fun h => hb (UInt64.toNat_inj.mp h)
  have helapsed : s.elapsed (max t t') = s.elapsed t + s₁.elapsed t' := by
    unfold elapsed
    rw [last, UInt64.toNat_max, UInt64.toNat_max]
    omega
  have hsplit : s.elapsed (max t t') * b.refill.toNat =
      s.elapsed t * b.refill.toNat + s₁.elapsed t' * b.refill.toNat := by rw [helapsed, add_mul]
  unfold gain rest accrued at *
  generalize s.elapsed t * b.refill.toNat = first at *
  generalize s₁.elapsed t' * b.refill.toNat = second at *
  rw [hsplit, carry]
  by_cases hfirst : first = 0
  · simp [hfirst]
  by_cases hsecond : second = 0
  · simp [hfirst, hsecond]
  rw [if_neg hfirst, if_neg hfirst, if_neg hsecond, if_neg hsecond, if_neg (by omega),
    if_neg (by omega)]
  have hsum : first + second + s.carry.toNat =
      second + (first + s.carry.toNat) % b.period.toNat +
        b.period.toNat * ((first + s.carry.toNat) / b.period.toNat) := by
    have := Nat.mod_add_div (first + s.carry.toNat) b.period.toNat
    omega
  rw [hsum, Nat.add_mul_div_left _ _ hp, Nat.add_mul_mod_self_left]
  exact ⟨Nat.add_comm .., rfl⟩

theorem refilled_refilled (hb : b.period ≠ 0) :
    (s.refilled b t).refilled b t' = s.refilled b (max t t') := by
  have hcarry : (UInt64.ofNat (s.rest b t)).toNat = s.rest b t :=
    (UInt64.toNat_ofNat' ..).trans (Nat.mod_eq_of_lt (rest_lt hb))
  have hlast : max (max s.lastRefill t) t' = max s.lastRefill (max t t') := by
    apply UInt64.toNat_inj.mp
    simp only [UInt64.toNat_max]
    omega
  obtain ⟨hgain, hrest⟩ :=
    gain_max hb ⟨s.tokens, max s.lastRefill t, UInt64.ofNat (s.rest b t)⟩ t' rfl hcarry
  rw [refilled, refilled_lastRefill, refilled, raised_raised, hlast]
  by_cases full : b.ceiling.toInt ≤ s.tokens.toInt + s.gain b t
  · -- the first reading has filled the slot, and the time up to the second would have all the more
    rw [raised_full (by omega), refilled, raised_full (by omega)]
  · have short : s.tokens.toInt + s.gain b t < b.ceiling.toInt := not_le.mp full
    rw [raised_short short, refilled, hgain, hrest]
    rfl

theorem refilled_credited : (s.credited b n).refilled b t = (s.refilled b t).credited b n := by
  have hsum : (s.refilled b t).credited b n =
      s.raised b (s.gain b t + n) (max s.lastRefill t) (s.refilled b t).carry := by
    rw [credited, refilled_lastRefill, refilled, raised_raised]
  rw [hsum, refilled, credited_lastRefill, credited, raised_raised]
  by_cases full : b.ceiling.toInt ≤ s.tokens.toInt + n
  · rw [raised_full (by omega), raised_full (by omega)]
  -- the tokens given back do not fill the slot, so the reading finds its carry as it was
  rw [raised_short (not_le.mp full)]
  change s.raised b (n + s.gain b t) _ (UInt64.ofNat (s.rest b t)) = _
  rw [Nat.add_comm n]
  by_cases whole : b.ceiling.toInt ≤ s.tokens.toInt + (s.gain b t + n : Nat)
  · rw [raised_full whole, raised_full whole]
  · rw [refilled, raised_short (n := s.gain b t) (by omega)]

theorem credited_credited : (s.credited b m).credited b n = s.credited b (m + n) := by
  rw [credited, credited_lastRefill, credited, raised_raised, credited]
  by_cases full : b.ceiling.toInt ≤ s.tokens.toInt + m
  · rw [raised_full (by omega), raised_full (by omega)]
  · rw [raised_short (not_le.mp full)]

/-- A reading leaves nothing beyond the ceiling that giving nothing back could take away. -/
theorem refilled_credited_zero : (s.refilled b t).credited b 0 = s.refilled b t := by
  rw [credited, refilled_lastRefill, refilled, raised_raised, Nat.add_zero]
  by_cases full : b.ceiling.toInt ≤ s.tokens.toInt + s.gain b t
  · rw [raised_full full, raised_full full]
  · rw [raised_short (not_le.mp full), raised_short (not_le.mp full)]

theorem credited_consume {n : Balance} (hn : 0 ≤ n.toInt)
    (room : -2 ^ 63 ≤ s.tokens.toInt - n.toInt) :
    (s.consume n).credited b n.toInt.toNat = s.credited b 0 := by
  have htokens : (s.consume n).tokens.toInt + n.toInt.toNat = s.tokens.toInt + (0 : Nat) := by
    rw [consume_tokens hn room, Int.toNat_of_nonneg hn]
    omega
  simp only [credited, raised, htokens, consume_lastRefill, consume_carry]

end Slot

namespace Ledger

/-- What becomes of the slots when each of them changes under its limit, as far as both lists go. -/
def onSlots (f : Slot → Bandwidth → Slot) : List Slot → List Bandwidth → List Slot
  | s :: ss, b :: bs => f s b :: onSlots f ss bs
  | ss, _ => ss

theorem onSlots_onSlots (f g : Slot → Bandwidth → Slot) (ss : List Slot) (bs : List Bandwidth) :
    onSlots f (onSlots g ss bs) bs = onSlots (fun s b => f (g s b) b) ss bs := by
  induction ss generalizing bs with
  | nil => cases bs <;> rfl
  | cons s ss ih =>
    cases bs with
    | nil => rfl
    | cons b bs => simp only [onSlots, ih]

theorem onSlots_congr {f g : Slot → Bandwidth → Slot} {bs : List Bandwidth}
    (h : ∀ b ∈ bs, ∀ s, f s b = g s b) (ss : List Slot) : onSlots f ss bs = onSlots g ss bs := by
  induction ss generalizing bs with
  | nil => cases bs <;> rfl
  | cons s ss ih =>
    cases bs with
    | nil => rfl
    | cons b bs =>
      obtain ⟨hb, hbs⟩ := List.forall_mem_cons.mp h
      simp only [onSlots, hb s, ih hbs]

theorem onSlots_eq_map_zip (f : Slot → Bandwidth → Slot) {ss : List Slot} {bs : List Bandwidth}
    (h : ss.length ≤ bs.length) : onSlots f ss bs = (ss.zip bs).map fun p => f p.1 p.2 := by
  induction ss generalizing bs with
  | nil => cases bs <;> rfl
  | cons s ss ih =>
    cases bs with
    | nil => exact absurd h (Nat.not_succ_le_zero _)
    | cons b bs => rw [onSlots, ih (Nat.le_of_succ_le_succ h), List.zip_cons_cons, List.map_cons]

def refilled (l : Ledger) (bs : List Bandwidth) (t : UInt64) : Ledger :=
  ⟨onSlots (·.refilled · t) l.slots bs⟩

def credited (l : Ledger) (bs : List Bandwidth) (n : Nat) : Ledger :=
  ⟨onSlots (·.credited · n) l.slots bs⟩

variable {l : Ledger} {bs : List Bandwidth} {t t' : UInt64} {m n : Nat}

theorem refill_eq (hb : ∀ b ∈ bs, b.period ≠ 0) (l : Ledger) (t : UInt64) :
    l.refill bs t = .ok (l.refilled bs t) := by
  have hslots : ∀ (ss : List Slot) (bs : List Bandwidth), (∀ b ∈ bs, b.period ≠ 0) →
      refillSlots t ss bs = .ok (onSlots (·.refilled · t) ss bs) := by
    intro ss
    induction ss with
    | nil => intro bs _; cases bs <;> rfl
    | cons s ss ih =>
      intro bs hbs
      cases bs with
      | nil => rfl
      | cons b bs =>
        obtain ⟨hb, hbs⟩ := List.forall_mem_cons.mp hbs
        simp only [refillSlots, Slot.refill_eq hb, ih bs hbs, onSlots]
  rw [refill, hslots _ _ hb, refilled]

theorem addSlots_eq (n : Balance) (ss : List Slot) (bs : List Bandwidth) :
    addSlots n ss bs = onSlots (·.add · n) ss bs := by
  induction ss generalizing bs with
  | nil => cases bs <;> rfl
  | cons s ss ih =>
    cases bs with
    | nil => rfl
    | cons b bs => rw [addSlots, onSlots, ih]

theorem add_eq {n : Balance} (hn : 0 ≤ n.toInt) : l.add bs n = l.credited bs n.toInt.toNat := by
  rw [add, addSlots_eq, onSlots_congr (fun _ _ _ => Slot.add_eq hn), credited]

theorem refilled_refilled (hb : ∀ b ∈ bs, b.period ≠ 0) :
    (l.refilled bs t).refilled bs t' = l.refilled bs (max t t') := by
  simp only [refilled, onSlots_onSlots]
  exact congrArg mk (onSlots_congr (fun b hb' _ => Slot.refilled_refilled (hb b hb')) _)

theorem refilled_credited : (l.credited bs n).refilled bs t = (l.refilled bs t).credited bs n := by
  simp only [refilled, credited, onSlots_onSlots, Slot.refilled_credited]

theorem credited_credited : (l.credited bs m).credited bs n = l.credited bs (m + n) := by
  simp only [credited, onSlots_onSlots, Slot.credited_credited]

theorem refilled_credited_zero : (l.refilled bs t).credited bs 0 = l.refilled bs t := by
  simp only [refilled, credited, onSlots_onSlots, Slot.refilled_credited_zero]

theorem credited_consume {n : Balance} (covered : l.slots.length ≤ bs.length) (hn : 0 ≤ n.toInt)
    (room : ∀ s ∈ l.slots, -2 ^ 63 ≤ s.tokens.toInt - n.toInt) :
    (l.consume n).credited bs n.toInt.toNat = l.credited bs 0 := by
  have hlength : (l.consume n).slots.length ≤ bs.length := by simpa [consume] using covered
  rw [credited, credited, onSlots_eq_map_zip _ hlength, onSlots_eq_map_zip _ covered, consume,
    List.zip_map_left, List.map_map]
  refine congrArg mk (List.map_congr_left fun p hp => ?_)
  exact Slot.credited_consume hn (room p.1 (List.of_mem_zip hp).1)

theorem foldlM_refill (hb : ∀ b ∈ bs, b.period ≠ 0) (l : Ledger) (ts : List UInt64) :
    ts.foldlM (fun l t => l.refill bs t) l = .ok (ts.foldl (fun l t => l.refilled bs t) l) := by
  have hrefill : (fun (l : Ledger) t => l.refill bs t) = fun l t => pure (l.refilled bs t) := by
    funext l t
    exact refill_eq hb l t
  rw [hrefill, List.foldlM_pure]
  rfl

/-- Tokens given back before any number of readings can be given back after them. -/
theorem foldl_refilled_credited (ts : List UInt64) :
    ts.foldl (fun l t => l.refilled bs t) (l.credited bs n) =
      (ts.foldl (fun l t => l.refilled bs t) l).credited bs n :=
  List.foldl_hom (fun l : Ledger => l.credited bs n) fun _ _ => refilled_credited

inductive Entry where
  | refill (t : UInt64)
  | add (n : Balance)
deriving DecidableEq

def Entry.times (es : List Entry) : List UInt64 :=
  es.filterMap fun
    | .refill t => some t
    | .add _ => none

def Entry.total (es : List Entry) : Nat :=
  (es.map fun
    | .refill _ => 0
    | .add n => n.toInt.toNat).sum

def enter (bs : List Bandwidth) (l : Ledger) : Entry → Except (Interrupted Ledger) Ledger
  | .refill t => l.refill bs t
  | .add n => .ok (l.add bs n)

theorem foldlM_enter_refilled (hb : ∀ b ∈ bs, b.period ≠ 0) {es : List Entry}
    (gives : ∀ n, .add n ∈ es → 0 ≤ n.toInt) :
    es.foldlM (enter bs) ((l.refilled bs t).credited bs m) =
      .ok ((l.refilled bs ((Entry.times es).foldl max t)).credited bs (m + Entry.total es)) := by
  induction es generalizing t m with
  | nil => rfl
  | cons e es ih =>
    have ih := fun t m => ih (t := t) (m := m) fun n hn => gives n (List.mem_cons_of_mem e hn)
    cases e with
    | refill t' =>
      rw [List.foldlM_cons, enter, refill_eq hb, refilled_credited, refilled_refilled hb]
      exact (ih (max t t') m).trans (by simp [Entry.times, Entry.total])
    | add n =>
      rw [List.foldlM_cons, enter, add_eq (gives n (List.mem_cons_self ..)), credited_credited]
      exact (ih t (m + n.toInt.toNat)).trans (by simp [Entry.times, Entry.total, Nat.add_assoc])

/-- Entries with a reading among them come to that of the latest and then all tokens given back. -/
theorem foldlM_enter (hb : ∀ b ∈ bs, b.period ≠ 0) {es : List Entry}
    (gives : ∀ n, .add n ∈ es → 0 ≤ n.toInt) (latest : (Entry.times es).max? = some t) :
    es.foldlM (enter bs) l = .ok ((l.refilled bs t).credited bs (Entry.total es)) := by
  induction es generalizing l with
  | nil => cases latest
  | cons e es ih =>
    have gives' := fun n hn => gives n (List.mem_cons_of_mem e hn)
    cases e with
    | refill t' =>
      have hfirst := foldlM_enter_refilled (l := l) (t := t') (m := 0) hb gives'
      rw [refilled_credited_zero, Nat.zero_add] at hfirst
      obtain rfl : (Entry.times es).foldl max t' = t := Option.some.inj latest
      rw [List.foldlM_cons, enter, refill_eq hb]
      exact hfirst.trans (by simp [Entry.total])
    | add n =>
      rw [List.foldlM_cons, enter, add_eq (gives n (List.mem_cons_self ..))]
      exact (ih gives' latest).trans
        (by rw [refilled_credited, credited_credited]; simp [Entry.total])

/-- Readings in any order, also from a clock that goes back, and additions between them: the ledger
ends as after one reading, the latest, and one addition of all that was given back. Where that fits a
balance it is an addition like any other, and where nothing was given back the readings alone come to
the latest of them. -/
theorem accrues_once (hb : ∀ b ∈ bs, b.period ≠ 0) (l : Ledger) {es : List Entry}
    (gives : ∀ n, .add n ∈ es → 0 ≤ n) (latest : (Entry.times es).max? = some t) :
    ∃ once, l.refill bs t = .ok once ∧
      es.foldlM (enter bs) l = .ok (once.credited bs (Entry.total es)) ∧
      (∀ n : Balance, n.toInt = Entry.total es →
        once.credited bs (Entry.total es) = once.add bs n) ∧
      ((∀ n, .add n ∉ es) → es.foldlM (enter bs) l = l.refill bs t) := by
  have gives : ∀ n, .add n ∈ es → 0 ≤ n.toInt := fun n hn => by
    have := gives n hn
    rwa [Int64.le_iff_toInt_le, Int64.toInt_zero] at this
  have hall := foldlM_enter (l := l) hb gives latest
  refine ⟨l.refilled bs t, refill_eq hb l t, hall, fun n hn => ?_, fun none => ?_⟩
  · rw [add_eq (by omega), hn, Int.toNat_natCast]
  · have hzero : Entry.total es = 0 := by
      refine List.sum_eq_zero_iff_forall_eq_nat.mpr fun n hn => ?_
      obtain ⟨e, he, rfl⟩ := List.mem_map.mp hn
      cases e with
      | refill t => rfl
      | add n => exact absurd he (none n)
    rw [hall, hzero, refilled_credited_zero, refill_eq hb]

def pair : List Bandwidth :=
  [.perSecond ⟨21, by decide⟩,
    { Bandwidth.perSecond ⟨23, by decide⟩ with capacity := ⟨2000, by decide⟩ }]

def uneven : Ledger := ⟨[⟨-5, 100000000, 7⟩, ⟨990, 50000000, 999999999⟩]⟩

def unordered : List Entry :=
  [.add 3, .refill 700000000, .refill 300000000, .add 4, .refill 1100000000]

/-- The first slot comes to its ceiling with the last addition, and the second keeps its carry. -/
theorem accrues_once_unordered :
    ∃ once, uneven.refill pair 1100000000 = .ok once ∧
      unordered.foldlM (enter pair) uneven = .ok (once.add pair 7) ∧
      once.add pair 7 = ⟨[⟨21, 1100000000, 0⟩, ⟨1022, 1100000000, 149999999⟩]⟩ := by
  have gives : ∀ n, .add n ∈ unordered → 0 ≤ n := by
    intro n hn
    simp only [unordered, List.mem_cons, Entry.add.injEq, reduceCtorEq, false_or, List.not_mem_nil,
      or_false] at hn
    rcases hn with rfl | rfl <;> decide
  have moves : ∀ b ∈ pair, b.period ≠ 0 := by decide
  have latest : (Entry.times unordered).max? = some 1100000000 := by decide
  obtain ⟨once, refilled, hall, hfits, -⟩ := accrues_once moves uneven gives latest
  have hsum := hfits 7 (by decide)
  rw [hsum] at hall
  refine ⟨once, refilled, hall, ?_⟩
  have hrun : unordered.foldlM (enter pair) uneven =
      .ok ⟨[⟨21, 1100000000, 0⟩, ⟨1022, 1100000000, 149999999⟩]⟩ := by decide +kernel
  exact Except.ok.inj (hall.symm.trans hrun)

/-- Tokens that are reserved and given back unused leave no trace. However often the ledger is read in
between, it ends as the readings alone leave it, balances, timestamps and carries, also where a slot
comes to its ceiling without the reservation and not with it. -/
theorem refund_undoes {l₀ : Ledger} {n : Balance} (moves : ∀ b ∈ bs, b.period ≠ 0)
    (covered : l.slots.length ≤ bs.length) (refilled : l₀.refill bs t = .ok l) (pos : 0 < n)
    (room : ∀ s ∈ l.slots, -2 ^ 63 ≤ s.tokens.toInt - n.toInt) (ts : List UInt64) :
    ∃ owed, ts.foldlM (fun l t => l.refill bs t) (l.consume n) = .ok owed ∧
      ts.foldlM (fun l t => l.refill bs t) l = .ok (owed.add bs n) := by
  rw [Int64.lt_iff_toInt_lt, Int64.toInt_zero] at pos
  obtain rfl : l₀.refilled bs t = l := Except.ok.inj ((refill_eq moves l₀ t).symm.trans refilled)
  refine ⟨_, foldlM_refill moves _ ts, ?_⟩
  rw [foldlM_refill moves, add_eq pos.le, ← foldl_refilled_credited, credited_consume covered pos.le room,
    refilled_credited_zero]

/-- The readings in between fill the first slot if nothing is reserved, and do not if ten tokens are. -/
theorem refund_undoes_capped :
    ∃ l owed, uneven.refill pair 500000000 = .ok l ∧
      [1400000000, 1300000000, 1450000000].foldlM (fun l t => l.refill pair t) (l.consume 10) =
        .ok owed ∧
      owed = ⟨[⟨13, 1450000000, 350000007⟩, ⟨1013, 1450000000, 199999999⟩]⟩ ∧
      [1400000000, 1300000000, 1450000000].foldlM (fun l t => l.refill pair t) l =
        .ok ⟨[⟨21, 1450000000, 0⟩, ⟨1023, 1450000000, 199999999⟩]⟩ := by
  have moves : ∀ b ∈ pair, b.period ≠ 0 := by decide
  have refilled : uneven.refill pair 500000000 =
      .ok ⟨[⟨3, 500000000, 400000007⟩, ⟨1001, 500000000, 349999999⟩]⟩ := by decide +kernel
  obtain ⟨owed, hreserved, halone⟩ := refund_undoes moves (by decide) refilled (n := 10) (by decide)
    (by decide) [1400000000, 1300000000, 1450000000]
  have hrun : [1400000000, 1300000000, 1450000000].foldlM (fun l t => l.refill pair t)
      (consume ⟨[⟨3, 500000000, 400000007⟩, ⟨1001, 500000000, 349999999⟩]⟩ 10) =
      .ok ⟨[⟨13, 1450000000, 350000007⟩, ⟨1013, 1450000000, 199999999⟩]⟩ := by decide +kernel
  obtain rfl := Except.ok.inj (hreserved.symm.trans hrun)
  refine ⟨_, _, refilled, hrun, rfl, halone.trans ?_⟩
  decide +kernel

end Ledger

end Throttle
