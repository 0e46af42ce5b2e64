import Throttle.Proofs.Publication
import Throttle.Proofs.Refusals
import Throttle.Proofs.Schedules

/-! Replacements in a race. The swap that puts a configuration in force divides time: up to the reading
of the call the limits before it have given what they give, slot by slot, and from then on only the new
ones give. A refusal is about the limits that the call found when it took the copy it decided on. -/

namespace Throttle

namespace Slot

variable {s s' : Slot} {b : Bandwidth} {t : UInt64}

theorem min_ceiling (s : Slot) (b : Bandwidth) :
    min s.tokens.toInt b.ceiling.toInt = min s.tokens.toInt b.capacity.val.toNat := by
  have hlt := s.tokens.toInt_lt
  have hceiling : b.ceiling.toInt = max (-2 ^ 63) (min (b.capacity.val.toNat : Int) (2 ^ 63 - 1)) :=
    toInt_ofIntClamp _
  omega

/-- A reading up to which a slot has been refilled already only cuts what is beyond the ceiling. -/
theorem Refills.tokens_of_le (h : s.Refills b t s') (past : t.toNat ≤ s.lastRefill.toNat) :
    s'.tokens.toInt = min s.tokens.toInt b.capacity.val.toNat := by
  have elapsed : s.elapsed t = 0 := Nat.sub_eq_zero_of_le past
  rw [← min_ceiling]
  cases h with
  | full above _ tokens => rw [tokens, min_eq_right above]
  | idle below _ _ tokens => rw [tokens, min_eq_left below.le]
  | filled _ some => exact absurd elapsed some.1
  | grown _ some => exact absurd elapsed some.1

end Slot

namespace Account

theorem Refills.isLeast_available {a work : Account} {t : UInt64} (hr : a.Refills t work) (hp : a.Paired)
    (past : ∀ i l s, a.At i l s → t.toNat ≤ s.lastRefill.toNat) :
    IsLeast {m | ∃ i l s, a.At i l s ∧ m = min s.tokens.toInt l.capacity.val.toNat}
      work.available.toInt := by
  constructor
  · obtain ⟨i, l, s', hat', htokens⟩ := exists_available (hr.paired hp)
    obtain ⟨s, hat, hs⟩ := hr.slots hat'
    exact ⟨i, l, s, hat, by rw [← htokens, hs.tokens_of_le (past i l s hat)]⟩
  · rintro m ⟨i, l, s, hat, rfl⟩
    obtain ⟨s', hat', hs⟩ := hr.exists_at hat
    rw [← hs.tokens_of_le (past i l s hat)]
    exact available_le (hr.paired hp) hat'

end Account

namespace Edition

/-- Configuration `c` has taken the place of the one in force in edition `e`, in a call with reading
`t`, which has published edition `e'`. -/
structure Replaces (e : Edition) (c : Configuration) (t : UInt64) (e' : Edition) : Prop where
  compatible : e.account.configuration.Compatible c
  /-- The ledger has been refilled under the configuration before, and nothing else has changed. -/
  published : ∃ old, e.account.refill t = .ok old ∧ e' = e.succ ⟨c, old.ledger⟩
  /-- Time up to the reading is charged to the limits before. -/
  before : ∀ i l s, e.account.At i l s → ∃ l' s', e'.account.At i l' s' ∧ s.Refills l t s'
  /-- The same reading finds no more than the new capacities. -/
  available : ∃ n, e'.Serves .available t (.available n) e' ∧
    IsLeast {m | ∃ i l s, e'.account.At i l s ∧ m = min s.tokens.toInt l.capacity.val.toNat} n.toInt
  /-- Time from the published slots on is charged to the new limits. -/
  after : ∀ t', ∃ later, e'.account.refill t' = .ok later ∧
    ∀ i l s, e'.account.At i l s → ∃ s', later.At i l s' ∧ s.Refills l t' s'

variable {e e' : Edition} {c : Configuration} {t : UInt64} {err : Incompatibility}

theorem answer_replace (c : Configuration) (a : Account) :
    ((Request.replace c).operation a).answer = .replaced (a.configuration.incompatibility? c) := by
  simp only [Request.operation, Operation.replace]
  split
  · next fits => rw [fits]; rfl
  · next clash => rw [clash]; rfl

theorem Serves.refused (h : e.Serves (.replace c) t (.replaced (some err)) e') :
    e.account.configuration.incompatibility? c = some err := by
  obtain ⟨work, refilled, answered, -⟩ := h.exists_work
  rw [answer_replace, (Account.refills_of_ok refilled).configuration] at answered
  exact (Answer.replaced.inj answered).symm

theorem Serves.replaces (hp : e.account.Paired) (h : e.Serves (.replace c) t (.replaced none) e') :
    e.Replaces c t e' := by
  obtain ⟨old, refilled, answered, rfl⟩ := h.exists_work
  have hr := Account.refills_of_ok refilled
  rw [answer_replace] at answered
  have compatible : old.configuration.Compatible c := (Answer.replaced.inj answered).symm
  have hpaired : (old.reconfigure c).Paired := (hr.paired hp).trans compatible.length_eq
  have past : ∀ i l s, (old.reconfigure c).At i l s → t.toNat ≤ s.lastRefill.toNat := by
    intro i l s hat
    obtain ⟨l₀, hat₀⟩ := (hr.paired hp).exists_at_slot hat.2
    obtain ⟨s₀, -, hs⟩ := hr.slots hat₀
    rw [hs.lastRefill_eq]
    exact le_max_right ..
  have publishes : ((Request.replace c).operation old).publish = some (old.reconfigure c) := by
    have fits : old.configuration.incompatibility? c = none := compatible
    simp only [Request.operation, Operation.replace, fits]
    rfl
  rw [publishes, Option.map_some, Option.getD_some]
  refine ⟨hr.configuration ▸ compatible, ⟨old, refilled, rfl⟩, fun i l s hat => ?_, ?_, fun t' => ?_⟩
  · obtain ⟨s', hat', hs⟩ := hr.exists_at hat
    obtain ⟨l', hat''⟩ := hpaired.exists_at_slot hat'.2
    exact ⟨l', s', hat'', hs⟩
  · obtain ⟨work, again, hr'⟩ := (old.reconfigure c).refill_ok t
    exact ⟨work.available, serves_available again, hr'.isLeast_available hpaired past⟩
  · obtain ⟨later, hlater, hr'⟩ := (old.reconfigure c).refill_ok t'
    exact ⟨later, hlater, fun i l s hat => hr'.exists_at hat⟩

end Edition

namespace Served

variable {w : World} {ms : List Move} {x : Served}

theorem Of.point_eq (hw : w.Consistent) (h : x.Of w ms) (active : ¬x.answer.isPassive) :
    x.point = x.returned := by
  rcases h.point with ⟨hpoint, -⟩ | ⟨-, still⟩
  · exact hpoint
  · exact absurd ((h.still_iff hw).mp still) active

theorem Of.supplied (hw : w.Consistent) (h : x.Of w ms) (passive : x.answer.isPassive) :
    w.Supplies ms x.caller x.point x.returned := by
  rcases h.point with ⟨-, moved⟩ | ⟨supplies, -⟩
  · exact absurd ((h.still_iff hw).mpr passive) moved
  · exact supplies

/-- Every completed call answers and publishes what it would alone at its point. -/
theorem Of.effective (hw : w.Consistent) (idle : ∀ k, w.standing k = .idle) (h : x.Of w ms) :
    x.Effective w ms := by
  rcases World.exists_served hw idle h.attempt with ⟨hnone, -⟩ | ⟨y, hy, effective, hret, hone, -⟩
  · have hmem : x.happening ∈ ((w.after ms x.returned).step (.attempt x.caller)).2.filter
        Happening.isReturn := List.mem_filter.mpr ⟨h.answered, rfl⟩
    rw [hnone] at hmem
    cases hmem
  have hsame := happening_eq h.answered hone
  obtain ⟨hcaller, hrequest, hreading, hanswer⟩ := Happening.returned.inj hsame
  have hpoint : y.point = x.point := by
    by_cases passive : x.answer.isPassive
    · have supplies := h.supplied hw passive
      have supplies' := hy.supplied hw (hanswer ▸ passive)
      rw [← hcaller, hret] at supplies'
      exact supplies'.unique supplies
    · rw [h.point_eq hw passive, hy.point_eq hw (hanswer ▸ passive), hret]
  rw [Effective, hpoint, ← hrequest, ← hreading, ← hanswer] at effective
  exact effective

/-- The call has been refused for this reason: none of its moves has published anything, and the
configuration that rules out the new one was published when the call took the copy it decided on. -/
structure Refused (x : Served) (w : World) (ms : List Move) (c : Configuration)
    (err : Incompatibility) : Prop where
  still : ∀ j, x.began ≤ j → j ≤ x.returned → (ms[j]?).map Move.caller = some x.caller →
    (w.after ms (j + 1)).published = (w.after ms j).published
  supplied : w.Supplies ms x.caller x.point x.returned
  began_lt : x.began < x.point
  incompatible : (w.after ms x.point).published.account.configuration.incompatibility? c = some err

theorem Of.replacement (hw : w.Consistent) (idle : ∀ k, w.standing k = .idle) (h : x.Of w ms)
    {c : Configuration} (request : x.request = .replace c) :
    (x.answer = .replaced none ∧ x.point = x.returned ∧
      (w.after ms x.returned).published.Replaces c x.reading (w.after ms (x.returned + 1)).published) ∨
    ∃ err, x.answer = .replaced (some err) ∧ x.Refused w ms c err := by
  obtain ⟨hlast, -⟩ := List.getElem?_eq_some_iff.mp h.attempt
  have serves := h.effective hw idle
  rw [Effective, request] at serves
  obtain ⟨clash, answer⟩ : ∃ clash, x.answer = .replaced clash := by
    obtain ⟨work, -, hanswer, -⟩ := serves.exists_work
    exact ⟨_, hanswer.trans (Edition.answer_replace c work)⟩
  cases clash with
  | none =>
    have hpoint := h.point_eq hw (by rw [answer]; exact nofun)
    rw [answer, hpoint] at serves
    exact .inl ⟨answer, hpoint, serves.replaces (hw.after _ hlast.le).paired⟩
  | some err =>
    have passive : x.answer.isPassive := by rw [answer]; rfl
    rw [answer] at serves
    exact .inr ⟨err, answer, h.still hw passive, h.supplied hw passive, h.began_lt, serves.refused⟩

end Served

namespace World

theorem Undisturbed.refused {w : World} {ms : List Move} (undisturbed : w.Undisturbed ms) (s : Strategy)
    {x : Served} {c : Configuration} {err : Incompatibility} (h : x.Refused w ms c err)
    (hi : x.returned < ms.length) : x.Refused { w with strategy := s } ms c err where
  still := fun j hb hj own => by
    rw [undisturbed.published_eq s (hj.trans_lt hi), undisturbed.published_eq s (hj.trans hi.le)]
    exact h.still j hb hj own
  supplied := undisturbed.supplies s h.supplied hi.le
  began_lt := h.began_lt
  incompatible := by
    rw [undisturbed.published_eq s (h.supplied.lt.le.trans hi.le)]
    exact h.incompatible

/-- A replacement splits time at its swap. For every call of every run that asks for a configuration,
whatever races it loses: either it takes effect as it returns, where the configuration takes the
place of the one it is compatible with and the ledger keeps what the limits before have given; or
it publishes nothing, and the answer says why the configuration could not take the place of the one
that was published when the attempt began that is answered, be it the first or one after a lost swap. -/
theorem replacement_splits_time (s : Strategy) (c : Configuration) (now : UInt64) (ms : List Move)
    (hs : s = .unshared → (new s c now).Undisturbed ms) (x : Served) (of : x.Of (new s c now) ms)
    (c' : Configuration) (request : x.request = .replace c') :
    (x.answer = .replaced none ∧ x.point = x.returned ∧
      ((new s c now).after ms x.returned).published.Replaces c' x.reading
        ((new s c now).after ms (x.returned + 1)).published) ∨
    ∃ err, x.answer = .replaced (some err) ∧ x.Refused (new s c now) ms c' err := by
  by_cases hu : s = .unshared
  · obtain ⟨hlast, -⟩ := List.getElem?_eq_some_iff.mp of.attempt
    have undisturbed := hs hu
    have hshared : ({ new s c now with strategy := .atomic } : World).Consistent :=
      new_consistent (s := .atomic) (by decide) c now
    rcases (undisturbed.served .atomic of).replacement hshared (fun _ => rfl) request with
      ⟨answer, hpoint, replaces⟩ | ⟨err, answer, refused⟩
    · rw [undisturbed.published_eq .atomic hlast.le, undisturbed.published_eq .atomic hlast] at replaces
      exact .inl ⟨answer, hpoint, replaces⟩
    · exact .inr ⟨err, answer, (undisturbed.strategy .atomic).refused s refused hlast⟩
  · exact of.replacement (new_consistent hu c now) (fun _ => rfl) request

def nameless : Configuration := .single (.perSecond ⟨31, by decide⟩) (by decide)

theorem replacement_splits_time_contested :
    ∃ w, w = new .atomic nameless 2 ∧
      (∃ x : Served, x.Of w contested ∧ x.caller = 1 ∧ x.answer = .replaced none ∧
        (w.after contested x.returned).published.Replaces (named "write") 7
          (w.after contested (x.returned + 1)).published) ∧
      ∃ x : Served, x.Of w contested ∧ x.caller = 0 ∧
        x.Refused w contested (named "read") (.bandwidthIdentity 0 "write" "read") := by
  refine ⟨_, rfl, ?_, ?_⟩
  · have returned : (((new .atomic nameless 2).after contested 4).step (.attempt 1)).2.filter
        Happening.isReturn = [.returned 1 (.replace (named "write")) 7 (.replaced none)] := by
      decide +kernel
    obtain ⟨b, p, of⟩ := Served.exists_of (new_consistent (by decide) nameless 2) (fun _ => rfl) rfl
      returned
    rcases replacement_splits_time .atomic nameless 2 contested nofun _ of (named "write") rfl with
      ⟨-, -, replaces⟩ | ⟨err, answer, -⟩
    · exact ⟨_, of, rfl, rfl, replaces⟩
    · cases answer
  · have returned : (((new .atomic nameless 2).after contested 6).step (.attempt 0)).2.filter
        Happening.isReturn = [.returned 0 (.replace (named "read")) 5
          (.replaced (some (.bandwidthIdentity 0 "write" "read")))] := by
      decide +kernel
    obtain ⟨b, p, of⟩ := Served.exists_of (new_consistent (by decide) nameless 2) (fun _ => rfl) rfl
      returned
    rcases replacement_splits_time .atomic nameless 2 contested nofun _ of (named "read") rfl with
      ⟨answer, -⟩ | ⟨err, answer, refused⟩
    · cases answer
    · cases answer
      exact ⟨_, of, rfl, refused⟩

end World

end Throttle
