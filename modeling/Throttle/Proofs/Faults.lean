import Throttle.Interleaving
import Throttle.Proofs.Sequences

/-! Where refilling stops. A slot that has room, and for which time has passed, cannot be refilled under
a limit that gives tokens but has no period to give them in. Nothing else stops a refill, and what came
before it stays. Limits that have been validated have a period, so no call on a bucket ever stops. -/

namespace Throttle

namespace Slot

/-- The slot has room and time has passed for it, but its limit gives tokens in a period of no length. -/
def Stalls (s : Slot) (b : Bandwidth) (now : UInt64) : Prop :=
  s.tokens < b.ceiling ∧ s.lastRefill < now ∧ b.refill ≠ 0 ∧ b.period = 0

instance (s : Slot) (b : Bandwidth) (now : UInt64) : Decidable (s.Stalls b now) :=
  inferInstanceAs (Decidable (_ ∧ _))

variable {s : Slot} {b : Bandwidth} {now : UInt64}

/-- What has accrued fits 128 bits, so it is the division that stops. -/
theorem accrue_of_period_eq_zero (period : b.period = 0) (s : Slot) (e : UInt64) :
    s.accrue b e = .error .divisionByZero := by
  have hfits := toNat_mul_add_lt e b.refill s.carry
  have hzero : b.period.toNat = 0 := by rw [period]; rfl
  rw [accrue, Wide.unsigned_ok (by omega), ok_bind, Wide.unsigned_ok hfits, ok_bind, hzero,
    Wide.divMod_zero]
  rfl

theorem ofNat_elapsed_eq_zero_iff :
    UInt64.ofNat (now.toNat - s.lastRefill.toNat) = 0 ↔ ¬s.lastRefill < now := by
  rw [← UInt64.toNat_inj, toNat_ofNat_elapsed, elapsed, UInt64.lt_iff_toNat_lt, UInt64.toNat_zero]
  omega

theorem refill_of_stalls (h : s.Stalls b now) :
    s.refill b now = .error ⟨.divisionByZero, { s with lastRefill := now }⟩ := by
  obtain ⟨below, later, gives, period⟩ := h
  have hlast : max s.lastRefill now = now := by
    rw [UInt64.lt_iff_toNat_lt] at later
    apply UInt64.toNat_inj.mp
    rw [UInt64.toNat_max]
    omega
  have hsome : ¬(UInt64.ofNat (now.toNat - s.lastRefill.toNat) = 0 ∨ b.refill = 0) := by
    rw [ofNat_elapsed_eq_zero_iff, not_or]
    exact ⟨not_not.mpr later, gives⟩
  simp only [refill, hlast, if_neg (Int64.not_le.mpr below), if_neg hsome,
    accrue_of_period_eq_zero period]
  rfl

theorem exists_refill_of_not_stalls (h : ¬s.Stalls b now) : ∃ s', s.refill b now = .ok s' := by
  by_cases period : b.period = 0
  · simp only [refill, ofNat_elapsed_eq_zero_iff]
    split
    · exact ⟨_, rfl⟩
    next room =>
    split
    · exact ⟨_, rfl⟩
    next some =>
    obtain ⟨later, gives⟩ := not_or.mp some
    exact absurd ⟨Int64.not_le.mp room, not_not.mp later, gives, period⟩ h
  · obtain ⟨s', refilled, -⟩ := refill_ok period s now
    exact ⟨s', refilled⟩

end Slot

namespace Ledger

def stalls (now : UInt64) (ss : List Slot) (bs : List Bandwidth) : Set Nat :=
  {p | ∃ s b, ss[p]? = some s ∧ bs[p]? = some b ∧ s.Stalls b now}

/-- What a refill that stops at position `p` leaves of the slots. -/
structure StopsAt (now : UInt64) (ss : List Slot) (bs : List Bandwidth) (p : Nat) (left : List Slot) :
    Prop where
  before : ∀ i < p, ∃ s b s', ss[i]? = some s ∧ bs[i]? = some b ∧ s.refill b now = .ok s' ∧
    left[i]? = some s'
  stalled : ∃ s, ss[p]? = some s ∧ left[p]? = some { s with lastRefill := now }
  after : ∀ i, p < i → left[i]? = ss[i]?

structure Completes (now : UInt64) (ss : List Slot) (bs : List Bandwidth) (ss' : List Slot) :
    Prop where
  within : ∀ (i : Nat) (s : Slot) (b : Bandwidth), ss[i]? = some s → bs[i]? = some b →
    ∃ s', s.refill b now = .ok s' ∧ ss'[i]? = some s'
  beyond : ∀ i, bs.length ≤ i → ss'[i]? = ss[i]?

variable {now : UInt64} {s s' : Slot} {b : Bandwidth} {ss ss' left : List Slot} {bs : List Bandwidth}
  {p : Nat}

theorem zero_mem_stalls : 0 ∈ stalls now (s :: ss) (b :: bs) ↔ s.Stalls b now := by simp [stalls]

theorem succ_mem_stalls : p + 1 ∈ stalls now (s :: ss) (b :: bs) ↔ p ∈ stalls now ss bs := Iff.rfl

theorem stalls_eq_empty_of_nil (h : ss = [] ∨ bs = []) : stalls now ss bs = ∅ := by
  rw [Set.eq_empty_iff_forall_notMem]
  rintro p ⟨s, b, hs, hb, -⟩
  rcases h with rfl | rfl
  · cases hs
  · cases hb

theorem stalls_cons_eq_empty (hs : ¬s.Stalls b now) (none : stalls now ss bs = ∅) :
    stalls now (s :: ss) (b :: bs) = ∅ := by
  rw [Set.eq_empty_iff_forall_notMem] at none ⊢
  intro p hp
  cases p with
  | zero => exact hs (zero_mem_stalls.mp hp)
  | succ p => exact none p (succ_mem_stalls.mp hp)

theorem isLeast_stalls_cons (hs : ¬s.Stalls b now) (least : IsLeast (stalls now ss bs) p) :
    IsLeast (stalls now (s :: ss) (b :: bs)) (p + 1) := by
  refine ⟨succ_mem_stalls.mpr least.1, fun q hq => ?_⟩
  cases q with
  | zero => exact absurd (zero_mem_stalls.mp hq) hs
  | succ q => exact Nat.succ_le_succ (least.2 (succ_mem_stalls.mp hq))

theorem Completes.cons (refilled : s.refill b now = .ok s') (h : Completes now ss bs ss') :
    Completes now (s :: ss) (b :: bs) (s' :: ss') where
  within := by
    intro i s₀ b₀ hs hb
    cases i with
    | zero =>
      cases hs
      cases hb
      exact ⟨s', refilled, rfl⟩
    | succ i => exact h.within i s₀ b₀ hs hb
  beyond := by
    intro i hi
    cases i with
    | zero => exact absurd hi (Nat.not_succ_le_zero _)
    | succ i => exact h.beyond i (Nat.le_of_succ_le_succ hi)

theorem StopsAt.cons (refilled : s.refill b now = .ok s') (h : StopsAt now ss bs p left) :
    StopsAt now (s :: ss) (b :: bs) (p + 1) (s' :: left) where
  before := by
    intro i hi
    cases i with
    | zero => exact ⟨s, b, s', rfl, rfl, refilled, rfl⟩
    | succ i => exact h.before i (Nat.lt_of_succ_lt_succ hi)
  stalled := h.stalled
  after := by
    intro i hi
    cases i with
    | zero => exact absurd hi (Nat.not_lt_zero _)
    | succ i => exact h.after i (Nat.lt_of_succ_lt_succ hi)

/-- Refilling goes through the slots up to the first one that stalls, if any does. -/
theorem refillSlots_cases (now : UInt64) (ss : List Slot) (bs : List Bandwidth) :
    (∃ ss', refillSlots now ss bs = .ok ss' ∧ stalls now ss bs = ∅ ∧ Completes now ss bs ss') ∨
      ∃ p left, refillSlots now ss bs = .error ⟨.divisionByZero, left⟩ ∧
        IsLeast (stalls now ss bs) p ∧ StopsAt now ss bs p left := by
  induction ss generalizing bs with
  | nil =>
    refine .inl ⟨[], by cases bs <;> rfl, stalls_eq_empty_of_nil (.inl rfl), ?_, fun _ _ => rfl⟩
    intro i s b hs
    cases hs
  | cons s ss ih =>
    cases bs with
    | nil =>
      refine .inl ⟨s :: ss, rfl, stalls_eq_empty_of_nil (.inr rfl), ?_, fun _ _ => rfl⟩
      intro i s b _ hb
      cases hb
    | cons b bs =>
      by_cases hs : s.Stalls b now
      · -- the refill does not come to the slots after this one
        refine .inr ⟨0, { s with lastRefill := now } :: ss, ?_,
          ⟨zero_mem_stalls.mpr hs, fun _ _ => Nat.zero_le _⟩, nofun, ⟨s, rfl, rfl⟩, ?_⟩
        · simp only [refillSlots, Slot.refill_of_stalls hs]
          rfl
        · intro i hi
          cases i with
          | zero => exact absurd hi (Nat.lt_irrefl 0)
          | succ i => rfl
      obtain ⟨s', refilled⟩ := Slot.exists_refill_of_not_stalls hs
      rcases ih bs with ⟨ss', hss', none, completes⟩ | ⟨p, left, hleft, least, stops⟩
      · refine .inl ⟨s' :: ss', ?_, stalls_cons_eq_empty hs none, completes.cons refilled⟩
        simp only [refillSlots, refilled, hss']
      · refine .inr ⟨p + 1, s' :: left, ?_, isLeast_stalls_cons hs least, stops.cons refilled⟩
        simp only [refillSlots, refilled, hleft]
        rfl

structure RefillEnds (l : Ledger) (bs : List Bandwidth) (now : UInt64) : Prop where
  stops_iff : (∃ i, l.refill bs now = .error i) ↔ (stalls now l.slots bs).Nonempty
  stopped : ∀ i, l.refill bs now = .error i → i.fault = .divisionByZero ∧
    ∃ p, IsLeast (stalls now l.slots bs) p ∧ StopsAt now l.slots bs p i.left.slots
  completed : ∀ l', l.refill bs now = .ok l' → Completes now l.slots bs l'.slots

theorem refillEnds (l : Ledger) (bs : List Bandwidth) (now : UInt64) : l.RefillEnds bs now := by
  rcases refillSlots_cases now l.slots bs with
    ⟨ss', hss', none, completes⟩ | ⟨p, left, hleft, least, stops⟩
  · have refilled : l.refill bs now = .ok ⟨ss'⟩ := by simp only [refill, hss']
    refine ⟨⟨?_, ?_⟩, ?_, ?_⟩
    · rintro ⟨i, stopped⟩
      cases refilled.symm.trans stopped
    · intro hp
      rw [Set.eq_empty_iff_forall_notMem] at none
      obtain ⟨p, hp⟩ := hp
      exact absurd hp (none p)
    · intro i stopped
      cases refilled.symm.trans stopped
    · intro l' hl'
      cases refilled.symm.trans hl'
      exact completes
  · have stopped : l.refill bs now = .error ⟨.divisionByZero, ⟨left⟩⟩ := by
      simp only [refill, hleft]
      rfl
    refine ⟨⟨fun _ => ⟨p, least.1⟩, fun _ => ⟨_, stopped⟩⟩, ?_, ?_⟩
    · intro i hi
      cases stopped.symm.trans hi
      exact ⟨rfl, p, least, stops⟩
    · intro l' hl'
      cases stopped.symm.trans hl'

end Ledger

namespace Call

variable {α β : Type}

/-- An attempt returns or goes on: the limits that its copy is refilled under have been validated. -/
theorem tryOnce_not_faulted (c : Call α) (s : Strategy) (e : Edition) (fault : Fault) :
    (c.tryOnce s e).progress ≠ .faulted fault := by
  obtain ⟨work, refilled, -⟩ := c.work.refill_ok c.reading
  intro faulted
  simp only [tryOnce, refilled] at faulted
  split at faulted
  · cases faulted
  · split at faulted <;> cases faulted

theorem finish_answers (c : Call α) (s : Strategy) (e : Edition) :
    ∃ answer, (c.finish s e).1 = .ok answer := by
  fun_induction finish c s e with
  | case1 c e turn answer returned => exact ⟨answer, rfl⟩
  | case2 c e turn fault faulted => exact absurd faulted (c.tryOnce_not_faulted s e fault)
  | case3 c e turn c' running answer published events rest ih =>
    rw [rest] at ih
    exact ih

theorem finishAmong_answers (c : Call α) (rounds : List (Activity β)) (b : Bucket) :
    ∃ answer, (c.finishAmong rounds b).answer.1 = .ok answer := by
  induction rounds generalizing c b with
  | nil => exact c.finish_answers b.strategy b.published
  | cons round rounds ih =>
    simp only [finishAmong]
    split
    · next answer returned => exact ⟨answer, rfl⟩
    · next fault faulted => exact absurd faulted (c.tryOnce_not_faulted _ _ fault)
    · next c' running => exact ih c' _

end Call

theorem Bucket.actAmong_not_faulted {β : Type} (b : Bucket) (action : Action)
    (rounds : List (Activity β)) (fault : Fault) :
    (b.actAmong action rounds).answer.1 ≠ .faulted fault := by
  intro stopped
  cases request : action.request? with
  | some r =>
    obtain ⟨answer, answered⟩ := (b.load r.operation).finishAmong_answers rounds b
    have answered : (b.performAmong r.operation rounds).answer.1 = .ok answer := answered
    rw [actAmong_of_request request, Bucket.request] at stopped
    split at stopped
    · cases stopped
    · next faulted =>
      rw [faulted] at answered
      cases answered
  | none =>
    rw [actAmong_of_request_none request] at stopped
    have acts := b.acts action
    generalize b.act action = out at acts stopped
    cases acts <;> cases stopped

namespace World

theorem step_not_faulted (w : World) (m : Move) (k : Nat) (fault : Fault) :
    .faulted k fault ∉ (w.step m).2 := by
  cases m with
  | call j r t =>
    rw [step]
    split <;> simp
  | load j =>
    rw [step]
    split <;> simp
  | attempt j =>
    rw [step]
    split
    · next r c running =>
      have hfault := c.tryOnce_not_faulted w.strategy w.published
      dsimp only
      generalize c.tryOnce w.strategy w.published = turn at hfault ⊢
      split
      · split <;> simp
      · split <;> simp
      · next fault' faulted => exact absurd faulted (hfault fault')
    · exact List.not_mem_nil

theorem run_not_faulted (w : World) (ms : List Move) (k : Nat) (fault : Fault) :
    .faulted k fault ∉ (w.run ms).2 := by
  induction ms generalizing w with
  | nil => exact List.not_mem_nil
  | cons m ms ih =>
    rw [run, List.mem_append, not_or]
    exact ⟨w.step_not_faulted m k fault, ih _⟩

end World

/-- Under limits that nobody has validated, a refill stops where a slot stalls and nowhere else: at the
first such slot, with those before it refilled and those after it as they were. No call on a bucket stops,
neither in a run of any number of callers nor in an action that others come between with whatever they
like: its limits, also those put in force later, come from `Configuration.build` alone. -/
theorem stops_exactly :
    (∀ (l : Ledger) (bs : List Bandwidth) (now : UInt64), l.RefillEnds bs now) ∧
      (∀ (s : Strategy) (c : Configuration) (now : UInt64) (ms : List Move) (k : Nat) (fault : Fault),
        .faulted k fault ∉ ((World.new s c now).run ms).2) ∧
      ∀ (β : Type) (b : Bucket) (action : Action) (rounds : List (Activity β)) (fault : Fault),
        (b.actAmong action rounds).answer.1 ≠ .faulted fault :=
  ⟨Ledger.refillEnds, fun s c now ms => (World.new s c now).run_not_faulted ms,
    fun _ b => b.actAmong_not_faulted⟩

namespace Ledger

def timeless : Bandwidth := { Bandwidth.perSecond ⟨33, by decide⟩ with period := 0 }

def halting : Ledger := ⟨[⟨3, 0, 7⟩, ⟨33, 0, 9⟩, ⟨4, 100, 9⟩, ⟨0, 0, 1⟩]⟩

def timed : List Bandwidth :=
  [.perSecond ⟨34, by decide⟩, timeless, timeless, .perSecond ⟨34, by decide⟩]

theorem stops_exactly_third :
    ∃ left, halting.refill timed 500000000 = .error ⟨.divisionByZero, left⟩ ∧
      left = ⟨[⟨20, 500000000, 7⟩, ⟨33, 500000000, 0⟩, ⟨4, 500000000, 9⟩, ⟨0, 0, 1⟩]⟩ ∧
      StopsAt 500000000 halting.slots timed 2 left.slots := by
  have stopped : halting.refill timed 500000000 = .error ⟨.divisionByZero,
      ⟨[⟨20, 500000000, 7⟩, ⟨33, 500000000, 0⟩, ⟨4, 500000000, 9⟩, ⟨0, 0, 1⟩]⟩⟩ := by decide +kernel
  obtain ⟨-, p, least, stops⟩ := (stops_exactly.1 halting timed 500000000).stopped _ stopped
  have third : IsLeast (stalls 500000000 halting.slots timed) 2 :=
    isLeast_stalls_cons (by decide) (isLeast_stalls_cons (by decide)
      ⟨zero_mem_stalls.mpr (by decide), fun _ _ => Nat.zero_le _⟩)
  rw [least.unique third] at stops
  exact ⟨_, stopped, rfl, stops⟩

end Ledger
end Throttle
