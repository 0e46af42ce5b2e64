import Throttle.Proofs.Conservation
import Throttle.Proofs.Grants
import Throttle.Proofs.Logs

/-! Burst and rate. In any stretch of the log that ends with a grant without delay, the calls are
granted no more than a full slot, what is added and what the limit gives for the time between. A
debt does not count against this, since the grant that ends the stretch finds it repaid. -/

namespace Throttle

namespace Commit

def charged (x : Commit) : Int := x.request.charged x.answer

def added (x : Commit) : Int := x.request.added

def Immediate (x : Commit) : Prop := x.request.grant? x.answer = some .zero

instance (x : Commit) : Decidable x.Immediate := inferInstanceAs (Decidable (_ = _))

def Keeps (x : Commit) : Prop := ∀ c, x.request ≠ .replace c

end Commit

theorem Slot.Refills.worth_le_full {s s' : Slot} {l : Bandwidth} {now : UInt64}
    (h : s.Refills l now s') (hc : s'.carry.toNat < l.period.toNat) :
    s'.worth l ≤ l.period.toNat * l.ceiling.toInt := by
  rcases lt_or_eq_of_le h.tokens_le with below | full
  · have := mul_le_mul_of_nonneg_left (Int.add_one_le_iff.mpr below)
      (Int.natCast_nonneg l.period.toNat)
    rw [mul_add, mul_one] at this
    unfold worth
    omega
  · rw [worth, full, h.carry_eq_zero (Int64.toInt_inj.mp full)]
    exact (add_zero _).le

namespace Account

def Steady : Account → Prop := ReachableBy fun a a' => a'.configuration = a.configuration

variable {a a' : Account} {r : Request} {reading : UInt64} {answer : Answer} {i : Nat}
  {l : Bandwidth} {s s' : Slot}

theorem Steady.commit (ha : a.Steady) (h : a.Commits r reading answer a')
    (keeps : ∀ c, r ≠ .replace c) : a'.Steady :=
  ReachableBy.commit ha h (h.configuration_eq ha.paired keeps)

theorem Steady.carry_lt (ha : a.Steady) (hat : a.At i l s) : s.carry.toNat < l.period.toNat := by
  refine ReachableBy.carry_lt (i := i) ?_ ha hat
  intro a a' same b b' hb hb'
  rw [same, hb] at hb'
  cases hb'
  exact le_rfl

/-- One call leaves no more than a full slot with what it adds, less what it grants. -/
theorem Commits.worth_le (h : a.Commits r reading answer a') (ha : a.Steady)
    (keeps : ∀ c, r ≠ .replace c) (hrate : l.refill = 0 ∨ 2 * l.refill.toNat ≤ l.period.toNat)
    (hat : a'.At i l s') :
    s'.worth l ≤ l.period.toNat * (l.ceiling.toInt + r.added - r.charged answer) := by
  obtain ⟨work, refilled, published, rfl⟩ := h
  have hr := refills_of_ok refilled
  have hcarry : ∀ s, work.At i l s → s.carry.toNat < l.period.toNat :=
    fun _ => hr.carry_lt fun _ => ha.carry_lt
  obtain ⟨s₁, hat₁, last, -, hle, -⟩ := lost_of_publishes
    (Request.publishes (hr.paired ha.paired) published) keeps hrate hcarry hat
  obtain ⟨s, -, hrefills⟩ := hr.slots hat₁
  have hfull := hrefills.worth_le_full (hcarry s₁ hat₁)
  rw [Slot.lost, last] at hle
  linarith

theorem Commits.tokens_nonneg (h : a.Commits r reading answer a') (ha : a.Steady)
    (immediate : r.grant? answer = some .zero) (hat : a'.At i l s') : 0 ≤ s'.tokens.toInt := by
  obtain ⟨work, refilled, published, rfl⟩ := h
  have hr := refills_of_ok refilled
  obtain ⟨n, hn, hcharge, -, grants⟩ := Request.exists_charge immediate
  obtain rfl : work.consume n = a' := Option.some.inj (hcharge.symm.trans published)
  obtain ⟨s, hs, rfl⟩ := consume_at.mp hat
  have hzero : (s.delay l n).isZero := by
    refine delay_isZero_iff.mp ?_ i l s hs
    rw [grants.delay_eq (hr.paired ha.paired)]
    rfl
  have hcarry := hr.carry_lt (fun _ => ha.carry_lt) hs
  have hle := (Slot.delay_isZero_iff_of_carry_lt hcarry).mp hzero
  rw [Slot.consume_tokens hn.le (by omega)]
  omega

end Account

namespace Edition.Chain

variable {e e' : Edition} {log : List Commit} {i : Nat} {l : Bandwidth} {s' : Slot}

theorem steady (h : e.Chain log e') (he : e.account.Steady) (keeps : ∀ x ∈ log, x.Keeps) :
    e'.account.Steady := by
  induction h with
  | nil => exact he
  | cons commits _ _ ih =>
    obtain ⟨first, keeps⟩ := List.forall_mem_cons.mp keeps
    exact ih (he.commit commits first) keeps

theorem configuration_eq (h : e.Chain log e') (he : e.account.Steady) (keeps : ∀ x ∈ log, x.Keeps) :
    e'.account.configuration = e.account.configuration := by
  induction h with
  | nil => rfl
  | cons commits _ _ ih =>
    obtain ⟨first, keeps⟩ := List.forall_mem_cons.mp keeps
    rw [ih (he.commit commits first) keeps, commits.configuration_eq he.paired first]

theorem exists_slots {x : Commit} (h : e.Chain (x :: log) e') (he : e.account.Steady)
    (keeps : ∀ y ∈ x :: log, y.Keeps) (hl : e.account.configuration.bandwidths[i]? = some l) :
    ∃ s s', x.edition.account.At i l s ∧ e'.account.At i l s' := by
  have hlast := h.configuration_eq he keeps
  have he' := h.steady he keeps
  obtain ⟨first, -⟩ := List.forall_mem_cons.mp keeps
  cases h with
  | cons commits _ _ =>
    have hfirst := commits.configuration_eq he.paired first
    obtain ⟨s, hat⟩ := (commits.paired he.paired).exists_at (by rw [hfirst]; exact hl)
    obtain ⟨s', hat'⟩ := he'.paired.exists_at (by rw [hlast]; exact hl)
    exact ⟨s, s', hat, hat'⟩

theorem lost_nonneg (h : e.Chain log e') (he : e.account.Steady) (keeps : ∀ x ∈ log, x.Keeps)
    (hrate : l.refill = 0 ∨ 2 * l.refill.toNat ≤ l.period.toNat) (hat : e'.account.At i l s') :
    ∃ s, e.account.At i l s ∧
      0 ≤ s.lost s' l ((log.map Commit.added).sum - (log.map Commit.charged).sum) := by
  induction h with
  | nil => exact ⟨s', hat, (s'.lost_self l).ge⟩
  | cons commits _ _ ih =>
    obtain ⟨first, keeps⟩ := List.forall_mem_cons.mp keeps
    obtain ⟨s₁, hat₁, hrest⟩ := ih (he.commit commits first) keeps hat
    obtain ⟨s, hs, -, hfirst, -⟩ :=
      commits.lost he.paired first hrate (fun _ => he.carry_lt) hat₁
    refine ⟨s, hs, ?_⟩
    rw [List.map_cons, List.map_cons, List.sum_cons, List.sum_cons, add_sub_add_comm,
      Slot.lost_trans s s₁]
    exact add_nonneg hfirst hrest

/-- What a stretch of the log leaves is worth no more than a full slot, what was added and what the
limit gives for the time, less what was granted. -/
theorem worth_le {x : Commit} {s : Slot} (h : e.Chain (x :: log) e') (he : e.account.Steady)
    (keeps : ∀ y ∈ x :: log, y.Keeps)
    (hrate : l.refill = 0 ∨ 2 * l.refill.toNat ≤ l.period.toNat)
    (hat : x.edition.account.At i l s) (hat' : e'.account.At i l s') :
    s'.worth l ≤ l.period.toNat * (l.ceiling.toInt + ((x :: log).map Commit.added).sum -
        ((x :: log).map Commit.charged).sum) +
      (s'.lastRefill.toNat - s.lastRefill.toNat) * l.refill.toNat := by
  obtain ⟨first, keeps⟩ := List.forall_mem_cons.mp keeps
  cases h with
  | cons commits _ rest =>
    -- The ceiling counts once, at the first call; after it only additions and time count.
    have hfirst := commits.worth_le he first hrate hat
    obtain ⟨s₁, hat₁, hrest⟩ := rest.lost_nonneg (he.commit commits first) keeps hrate hat'
    obtain ⟨-, rfl⟩ := hat₁.unique hat
    rw [Slot.lost] at hrest
    rw [List.map_cons, List.map_cons, List.sum_cons, List.sum_cons, Commit.added, Commit.charged]
    linarith

/-- Where the stretch ends with a grant without delay, a full slot, the additions and the time pay for
all that was granted. -/
theorem charged_le {x y : Commit} {s : Slot} (h : e.Chain (x :: log) e') (he : e.account.Steady)
    (keeps : ∀ y ∈ x :: log, y.Keeps)
    (hrate : l.refill = 0 ∨ 2 * l.refill.toNat ≤ l.period.toNat)
    (hy : (x :: log).getLast? = some y) (immediate : y.Immediate)
    (hat : x.edition.account.At i l s) (hat' : e'.account.At i l s') :
    ((x :: log).map Commit.charged).sum ≤ l.ceiling.toInt + ((x :: log).map Commit.added).sum +
      (s'.lastRefill.toNat - s.lastRefill.toNat) * l.refill.toNat / l.period.toNat := by
  have hworth := h.worth_le he keeps hrate hat hat'
  obtain ⟨before, e₁, hlog, hbefore, commits, rfl⟩ := h.exists_last hy
  have keeps : ∀ z ∈ before, z.Keeps := by
    intro z hz
    rw [hlog] at keeps
    exact keeps z (List.mem_append_left _ hz)
  -- The last grant found its tokens, so that it leaves no debt and the worth is not negative.
  have htokens := commits.tokens_nonneg (hbefore.steady he keeps) immediate hat'
  have hpos : (0 : Int) < l.period.toNat := Int.natCast_pos.mpr hat.valid.toNat_pos
  have hnonneg : 0 ≤ s'.worth l := by
    unfold Slot.worth
    positivity
  rw [← sub_le_iff_le_add', Int.le_ediv_iff_mul_le hpos]
  linarith [mul_comm (((x :: log).map Commit.charged).sum -
    (l.ceiling.toInt + ((x :: log).map Commit.added).sum)) (l.period.toNat : Int)]

end Edition.Chain

namespace World

open Happening

variable {ms : List Move} {i : Nat} {l : Bandwidth}

theorem keeps_of_unreplaced {s : Strategy} {c : Configuration} {now : UInt64}
    (hs : s = .unshared → (new s c now).Undisturbed ms) (hms : Unreplaced ms) :
    ∀ x ∈ commits ((new s c now).run ms).2, x.Keeps := by
  intro x hx c' hrequest
  have hcall := exists_call_new hs hx
  rw [hrequest] at hcall
  exact hms _ _ _ hcall

/-- Burst and rate, for every stretch `window` of the calls that publish, from `x` to `y`, of any
run that replaces no configuration. The limit gives at most half a token in a nanosecond, so that no
debt is too deep for a balance. -/
theorem window_within_rate (s : Strategy) (c : Configuration) (now : UInt64) (ms : List Move)
    (hs : s = .unshared → (new s c now).Undisturbed ms) (hms : Unreplaced ms)
    (hl : c.bandwidths[i]? = some l) (hrate : l.refill = 0 ∨ 2 * l.refill.toNat ≤ l.period.toNat)
    {before window after : List Commit}
    (hlog : commits ((new s c now).run ms).2 = before ++ window ++ after) {x y : Commit}
    (hx : window.head? = some x) (hy : window.getLast? = some y) (immediate : y.Immediate) :
    ∃ sx sy, x.edition.account.At i l sx ∧ y.edition.account.At i l sy ∧
      (window.map Commit.charged).sum ≤ l.ceiling.toInt + (window.map Commit.added).sum +
        (sy.lastRefill.toNat - sx.lastRefill.toNat) * l.refill.toNat / l.period.toNat := by
  have keeps := keeps_of_unreplaced hs hms
  have hchain := new_chain hs (le_refl ms.length)
  obtain ⟨rest, rfl⟩ : ∃ rest, window = x :: rest := List.head?_eq_some_iff.mp hx
  rw [hlog, List.forall_mem_append, List.forall_mem_append] at keeps
  obtain ⟨⟨keepsBefore, keeps⟩, -⟩ := keeps
  rw [seen_length, hlog] at hchain
  obtain ⟨e₂, hchain, -⟩ := hchain.split
  obtain ⟨e₁, hbefore, hwindow⟩ := hchain.split
  have hnew : (Account.new c now).Steady := .new c now
  have he₁ := hbefore.steady hnew keepsBefore
  have hl₁ : e₁.account.configuration.bandwidths[i]? = some l := by
    rw [hbefore.configuration_eq hnew keepsBefore]
    exact hl
  obtain ⟨sx, sy, hsx, hsy⟩ := hwindow.exists_slots he₁ keeps hl₁
  obtain ⟨_, _, _, _, _, rfl⟩ := hwindow.exists_last hy
  exact ⟨sx, sy, hsx, hsy, hwindow.charged_le he₁ keeps hrate hy immediate hsx hsy⟩

/-- Caller 0 borrows fifteen tokens, caller 1 loses a race to it and gives eight back, and caller 2
consumes when the debt has been repaid. -/
def repaid : List Move :=
  [.call 0 (.reserve ⟨25, by decide⟩ .infinite) 0, .load 0, .call 1 (.add ⟨8, by decide⟩) 100000000,
    .load 1, .attempt 0, .attempt 1, .attempt 1] ++ Move.whole 2 (.consume ⟨3, by decide⟩) 900000000

theorem window_within_rate_repaid :
    ∃ window x y, commits ((new .atomic (.single halfFull (by decide)) 0).run repaid).2 =
        [] ++ window ++ [] ∧ window.head? = some x ∧ window.getLast? = some y ∧ y.Immediate ∧
      (window.map Commit.charged).sum = 28 ∧ (window.map Commit.added).sum = 8 ∧
      ∃ sx sy, x.edition.account.At 0 halfFull sx ∧ y.edition.account.At 0 halfFull sy ∧
        (28 : Int) ≤ 20 + 8 + (sy.lastRefill.toNat - sx.lastRefill.toNat) * 20 / 1000000000 := by
  have hms : Unreplaced repaid := by
    intro k c t h
    simp [repaid, Move.whole] at h
  set window := commits ((new .atomic (.single halfFull (by decide)) 0).run repaid).2 with hwindow
  have hlog : window = [] ++ window ++ [] := by simp
  obtain ⟨x, hx⟩ : ∃ x, window.head? = some x := Option.isSome_iff_exists.mp (by decide +kernel)
  obtain ⟨y, hy⟩ : ∃ y, window.getLast? = some y := Option.isSome_iff_exists.mp (by decide +kernel)
  have immediate : y.Immediate := by
    have h : ∀ y ∈ window.getLast?, y.Immediate := by decide +kernel
    exact h y hy
  have hcharged : (window.map Commit.charged).sum = 28 := by decide +kernel
  have hadded : (window.map Commit.added).sum = 8 := by decide +kernel
  obtain ⟨sx, sy, hsx, hsy, hle⟩ := window_within_rate .atomic (.single halfFull (by decide)) 0 repaid
    (fun h => by cases h) hms (i := 0) rfl (by decide) hlog hx hy immediate
  rw [hcharged, hadded] at hle
  exact ⟨window, x, y, hlog, hx, hy, immediate, hcharged, hadded, sx, sy, hsx, hsy, hle⟩

end World
end Throttle
