import Throttle.Proofs.Debts

/-! No overtaking. A grant is ready when the account that it leaves behind owes nothing any more.
Only an addition brings that instant forward, and a later grant has all earlier debts to clear
beside its own, so grants become ready in the order in which they were made. -/

namespace Throttle

namespace Slot

theorem consume_clears_iff {s : Slot} {b : Bandwidth} {n : Balance} {w : Nat} (hn : 0 ≤ n.toInt)
    (room : -2 ^ 63 ≤ s.tokens.toInt - n.toInt) :
    (s.consume n).Clears b w ↔
      b.period.toNat * n.toInt ≤ s.worth b + w * b.refill.toNat := by
  rw [Clears, consume_worth hn room]
  constructor <;> intro h <;> linarith

end Slot

/-- No limit gives more than half a token in a nanosecond. -/
def Configuration.Slow (c : Configuration) : Prop :=
  ∀ l ∈ c.bandwidths, l.refill = 0 ∨ 2 * l.refill.toNat ≤ l.period.toNat

namespace Account

variable {a a' : Account} {n : Balance} {d : Nanos} {r : Request} {reading : UInt64}
  {answer : Answer} {w T : Nat}

/-- The delay of a grant is the shortest time that clears what the slots owe after it. -/
theorem clears_iff_of_grant (hp : a.Paired)
    (hc : ∀ i l s, a.At i l s → s.carry.toNat < l.period.toNat) (slow : a.configuration.Slow)
    (hn : 0 < n.toInt) (grants : r.Grants a n d) (hw : w < 2 ^ 64 - 1) :
    (a.consume n).Clears w ↔ d.val.toNat ≤ w := by
  have hslot : ∀ {i l s}, a.At i l s →
      ((s.consume n).Clears l w ↔ (s.delay l n).val.toNat ≤ w) := by
    intro i l s hat
    have hcarry := hc i l s hat
    have hends := delay_isInfinite_iff.mp (grants.ends hp) i l s hat
    have room := Slot.room_of_delay (slow l (List.mem_of_getElem? hat.1)) hcarry hends
    rw [Slot.consume_clears_iff hn.le room, Slot.toNat_delay_le_iff_worth hcarry hw]
  rw [← grants.delay_eq hp, toNat_delay_le a n (by omega)]
  constructor
  · intro h i l s hat
    exact (hslot hat).mp (h i l _ (consume_at.mpr ⟨s, hat, rfl⟩))
  · intro h i l s' hat'
    obtain ⟨s, hat, rfl⟩ := consume_at.mp hat'
    exact (hslot hat).mpr (h i l s hat)

/-- A call that publishes without giving or replacing anything is a grant. Its wait ends, and is the
shortest time that clears all debts. -/
theorem Commits.exists_delay (h : a.Commits r reading answer a') (ha : a.Steady)
    (slow : a.configuration.Slow) (gives : ∀ n, r ≠ .add n) (keeps : ∀ c, r ≠ .replace c) :
    ∃ d, r.grant? answer = some d ∧ d.val.toNat < 2 ^ 64 - 1 ∧
      ∀ w < 2 ^ 64 - 1, a'.Clears w ↔ d.val.toNat ≤ w := by
  obtain ⟨work, refilled, published, rfl⟩ := h
  have hr := refills_of_ok refilled
  have hp := hr.paired ha.paired
  obtain ⟨n, d, hn, rfl, granted, grants⟩ := Request.exists_grant hp published gives keeps
  have hends := grants.ends hp
  have hlt := d.val.toNat_lt
  rw [grants.delay_eq hp, Nanos.isInfinite_iff] at hends
  refine ⟨d, granted, by omega, fun w hw => ?_⟩
  exact clears_iff_of_grant hp (fun _ _ _ => hr.carry_lt fun _ => ha.carry_lt)
    (hr.configuration ▸ slow) hn grants hw

/-- Not all debts are cleared before the instant `T`. -/
def OwesUntil (a : Account) (T : Nat) : Prop :=
  ∀ (L : UInt64) (w : Nat), a.Aligned L → a.Clears w → T ≤ L.toNat + w

theorem Aligned.unique {t t' : UInt64} (h : a.Aligned t) (h' : a.Aligned t') (hp : a.Paired) :
    t = t' := by
  have hne : a.ledger.slots ≠ [] := by
    rw [← List.length_pos_iff, hp, List.length_pos_iff]
    exact a.configuration.nonempty
  obtain ⟨s, hs⟩ := List.exists_mem_of_ne_nil _ hne
  exact (h s hs).symm.trans (h' s hs)

/-- A call that adds nothing does not bring forward the instant at which debts are cleared. -/
theorem Commits.owesUntil (h : a.Commits r reading answer a') (ha : a.Steady)
    (slow : a.configuration.Slow) (gives : ∀ n, r ≠ .add n) (keeps : ∀ c, r ≠ .replace c)
    (owes : a.OwesUntil T) : a'.OwesUntil T := by
  intro L' w aligned' hclears
  have hp' := h.paired ha.paired
  obtain ⟨L, aligned⟩ := ReachableBy.aligned ha
  obtain rfl : max L reading = L' := (h.aligned ha.paired aligned).unique aligned' hp'
  have hle : L.toNat ≤ (max L reading).toNat := by rw [UInt64.toNat_max]; exact le_max_left _ _
  have hadded : r.added = 0 := by
    cases r with
    | add n => exact absurd rfl (gives n)
    | _ => rfl
  suffices a.Clears ((max L reading).toNat - L.toNat + w) by
    have := owes L _ aligned this
    omega
  intro i l s hat
  obtain ⟨s', hat'⟩ := hp'.exists_at ((h.configuration_eq ha.paired keeps).symm ▸ hat.1)
  obtain ⟨s₀, hat₀, -, hlost, -⟩ :=
    h.lost ha.paired keeps (slow l (List.mem_of_getElem? hat.1)) (fun _ => ha.carry_lt) hat'
  obtain ⟨-, rfl⟩ := hat₀.unique hat
  have hcharged := mul_nonneg (Int.natCast_nonneg l.period.toNat) (r.charged_nonneg answer)
  have hslot := hclears i l s' hat'
  rw [Slot.lost, hadded, hat.lastRefill_eq aligned, hat'.lastRefill_eq aligned', zero_sub,
    mul_neg] at hlost
  unfold Slot.Clears at hslot ⊢
  push_cast [hle]
  linarith [add_mul ((max L reading).toNat - L.toNat : Int) w l.refill.toNat]

end Account

namespace Commit

def Takes (x : Commit) : Prop := ∀ n, x.request ≠ .add n

/-- The call was granted tokens that are there at the instant `T`: the delay that it answered counts
from the reading that it has brought the slots to. -/
def ReadyAt (x : Commit) (T : Nat) : Prop :=
  ∃ L d, x.edition.account.Aligned L ∧ x.request.grant? x.answer = some d ∧
    T = L.toNat + d.val.toNat

end Commit

/-- Every call of a log that gives nothing back and keeps the limits is a grant, and the instants at
which the grants are ready never go back. -/
theorem Edition.Chain.exists_times {e e' : Edition} {log : List Commit} (h : e.Chain log e')
    (he : e.account.Steady) (slow : e.account.configuration.Slow) (takes : ∀ x ∈ log, x.Takes)
    (keeps : ∀ x ∈ log, x.Keeps) :
    ∃ times, List.Forall₂ Commit.ReadyAt log times ∧ times.Pairwise (· ≤ ·) ∧
      ∀ T, e.account.OwesUntil T → ∀ T' ∈ times, T ≤ T' := by
  induction h with
  | nil => exact ⟨[], .nil, .nil, fun _ _ _ h => by cases h⟩
  | @cons e _ x _ commits _ rest ih =>
    obtain ⟨takesFirst, takes⟩ := List.forall_mem_cons.mp takes
    obtain ⟨keepsFirst, keeps⟩ := List.forall_mem_cons.mp keeps
    have hsteady := he.commit commits keepsFirst
    have hconf := commits.configuration_eq he.paired keepsFirst
    obtain ⟨d, granted, hends, hclears⟩ := commits.exists_delay he slow takesFirst keepsFirst
    obtain ⟨L, aligned⟩ := Account.ReachableBy.aligned hsteady
    obtain ⟨times, hready, hsorted, hafter⟩ := ih hsteady (hconf ▸ slow) takes keeps
    -- What the first grant leaves is owed until it is ready, so the later ones are ready after it.
    have howes : x.edition.account.OwesUntil (L.toNat + d.val.toNat) := by
      intro L' w aligned' hw
      obtain rfl := aligned.unique aligned' hsteady.paired
      by_cases hlong : w < 2 ^ 64 - 1
      · exact Nat.add_le_add_left ((hclears w hlong).mp hw) _
      · omega
    refine ⟨(L.toNat + d.val.toNat) :: times, .cons ⟨L, d, aligned, granted, rfl⟩ hready,
      .cons (hafter _ howes) hsorted, fun T owes => ?_⟩
    have owes := commits.owesUntil he slow takesFirst keepsFirst owes
    exact List.forall_mem_cons.mpr
      ⟨owes L _ aligned ((hclears _ hends).mpr le_rfl), hafter T owes⟩

namespace World

open Happening

variable {w w' : World} {m : Move} {hs : List Happening} {ms : List Move} {k : Nat} {r : Request}
  {t : UInt64} {answer : Answer} {d : Nanos}

theorem Steps.mem_commits (h : w.Steps m w' hs) (returned : .returned k r t answer ∈ hs)
    (granted : r.grant? answer = some d) : ∃ e, ⟨k, r, t, answer, e⟩ ∈ commits hs := by
  cases h with
  | ignored => cases returned
  | called => simp at returned
  | loaded => cases returned
  | skipped k r c work running refilled unpublished =>
    simp only [List.mem_append, List.mem_map, reduceCtorEq, and_false, exists_false, false_or,
      List.mem_singleton, Happening.returned.injEq] at returned
    obtain ⟨rfl, rfl, rfl, rfl⟩ := returned
    obtain ⟨n, -, published, -⟩ := Request.exists_charge granted
    rw [unpublished] at published
    cases published
  | committed k r c work a' =>
    simp only [List.mem_cons, List.mem_append, List.mem_map, reduceCtorEq, and_false, exists_false,
      false_or, Happening.returned.injEq, List.not_mem_nil, or_false] at returned
    obtain ⟨rfl, rfl, rfl, rfl⟩ := returned
    rw [List.cons_append, commits, answers_reported, commits_reported]
    exact ⟨_, .head _⟩
  | lost => simp at returned

theorem Consistent.mem_commits (hw : w.Consistent) (returned : .returned k r t answer ∈ (w.run ms).2)
    (granted : r.grant? answer = some d) : ∃ e, ⟨k, r, t, answer, e⟩ ∈ commits (w.run ms).2 := by
  induction ms generalizing w with
  | nil => cases returned
  | cons m ms ih =>
    have step := hw.steps m
    rw [run, List.mem_append] at returned
    rw [run, step.commits_append]
    rcases returned with returned | returned
    · obtain ⟨e, he⟩ := step.mem_commits returned granted
      exact ⟨e, List.mem_append_left _ he⟩
    · obtain ⟨e, he⟩ := ih (step.consistent hw) returned
      exact ⟨e, List.mem_append_right _ he⟩

def Unadded (ms : List Move) : Prop := ∀ k n t, Move.call k (.add n) t ∉ ms

/-- No overtaking, for every run that neither adds tokens nor replaces the configuration: every grant
that a caller gets is in the log, and the instants at which the grants of the log are ready never go
back. No limit gives more than half a token in a nanosecond, so that no debt is too deep for a
balance. -/
theorem ready_in_order (s : Strategy) (c : Configuration) (now : UInt64) (ms : List Move)
    (hs : s = .unshared → (new s c now).Undisturbed ms) (hms : Unreplaced ms) (hadd : Unadded ms)
    (slow : c.Slow) :
    (∀ k r t answer d, .returned k r t answer ∈ ((new s c now).run ms).2 →
      r.grant? answer = some d → ∃ e, ⟨k, r, t, answer, e⟩ ∈ commits ((new s c now).run ms).2) ∧
    ∃ times, List.Forall₂ Commit.ReadyAt (commits ((new s c now).run ms).2) times ∧
      times.Pairwise (· ≤ ·) := by
  have hchain := new_chain hs (le_refl ms.length)
  rw [seen_length] at hchain
  have takes : ∀ x ∈ commits ((new s c now).run ms).2, x.Takes := by
    intro x hx n hrequest
    exact hadd _ n _ (hrequest ▸ exists_call_new hs hx)
  obtain ⟨times, hready, hsorted, -⟩ :=
    hchain.exists_times (.new c now) slow takes (keeps_of_unreplaced hs hms)
  refine ⟨fun k r t answer d returned granted => ?_, times, hready, hsorted⟩
  obtain ⟨s', hs', hsame⟩ := exists_shared hs
  obtain ⟨-, hseen⟩ := hsame ms.length le_rfl
  rw [seen_length, seen_length] at hseen
  rw [hseen] at returned ⊢
  exact (new_consistent hs' c now).mem_commits returned granted

/-- Caller 0 borrows eight of eighteen tokens. Caller 1 loses the race to it and borrows eleven more,
with a reading from a tenth of a second later. When all is repaid, caller 2 takes thirteen at once. -/
def queued : List Move :=
  [.call 0 (.reserve ⟨18, by decide⟩ .infinite) 0, .load 0,
    .call 1 (.reserve ⟨11, by decide⟩ .infinite) 100000000, .load 1, .attempt 0, .attempt 1,
    .attempt 1] ++ Move.whole 2 (.consume ⟨13, by decide⟩) 1600000000

theorem ready_in_order_queued :
    answers ((new .atomic (.single halfFull (by decide)) 0).run queued).2 =
        [.wait ⟨400000000⟩, .wait ⟨850000000⟩, .consumed true] ∧
      ∃ times, List.Forall₂ Commit.ReadyAt
          (commits ((new .atomic (.single halfFull (by decide)) 0).run queued).2) times ∧
        times.Pairwise (· ≤ ·) := by
  have hms : Unreplaced queued := by
    intro k c t h
    simp [queued, Move.whole] at h
  have hadd : Unadded queued := by
    intro k n t h
    simp [queued, Move.whole] at h
  have slow : (Configuration.single halfFull (by decide)).Slow := by
    intro l hl
    obtain rfl := List.mem_singleton.mp hl
    decide
  obtain ⟨-, hordered⟩ := ready_in_order .atomic (.single halfFull (by decide)) 0 queued
    (fun h => by cases h) hms hadd slow
  exact ⟨by decide +kernel, hordered⟩

end World
end Throttle
