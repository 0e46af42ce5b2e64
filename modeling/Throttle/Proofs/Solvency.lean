import Throttle.Proofs.Debts
import Throttle.Proofs.Publication

/-! Solvency. A bucket that grants nothing while it owes anything stays solvent on a time line: a
reservation finds every slot out of debt, so what it takes is the whole debt, and its delay is the
instant at which that is repaid. Whatever the limits give, such a debt never exceeds the charge. -/

namespace Throttle

namespace Slot

/-- By the instant `T` the slot gets back all that it owes. -/
def ClearedBy (s : Slot) (b : Bandwidth) (T : Nat) : Prop := s.Clears b (T - s.lastRefill.toNat)

variable {s s' : Slot} {b : Bandwidth} {n : Balance} {t t₀ : UInt64} {T : Nat} {W net : Int}

theorem Refills.clearedBy (h : s.Refills b t s') (past : s.lastRefill.toNat ≤ T) (ht : t.toNat ≤ T)
    (hs : s.ClearedBy b T) : s'.ClearedBy b T := by
  rcases lt_or_eq_of_le h.tokens_le with below | full
  · have hlast := h.lastRefill_eq
    have hsplit : ((T - s.lastRefill.toNat : Nat) : Int) =
        (T - s'.lastRefill.toNat : Nat) + (s'.lastRefill.toNat - s.lastRefill.toNat) := by omega
    unfold ClearedBy Clears at hs ⊢
    rw [hsplit, add_mul] at hs
    rw [h.worth_eq below]
    linarith
  · have hceiling : 0 < b.ceiling.toInt := b.capacity.balance_pos
    exact clears_of_tokens_nonneg (by omega)

theorem Refills.tokens_nonneg (h : s.Refills b t s') (hc : s.carry.toNat < b.period.toNat)
    (hs : s.ClearedBy b t.toNat) : 0 ≤ s'.tokens.toInt := by
  rw [h.le_tokens_iff hc b.capacity.balance_pos.le, mul_zero]
  exact hs

theorem add_clearedBy (hn : 0 ≤ n.toInt) (hs : s.ClearedBy b T) : (s.add b n).ClearedBy b T := by
  rw [ClearedBy, add_lastRefill]
  exact add_clears hn hs

theorem Refills.above (h : s.Refills b t s') (hW : 0 ≤ W) (hs : -W ≤ s.tokens.toInt) :
    -W ≤ s'.tokens.toInt := by
  have hceiling : 0 < b.ceiling.toInt := b.capacity.balance_pos
  cases h with
  | full _ _ tokens => rw [tokens]; omega
  | idle _ _ _ tokens => rw [tokens]; exact hs
  | filled _ _ _ _ tokens => rw [tokens]; omega
  | grown _ _ _ _ tokens =>
    have := Int.natCast_nonneg (s.accrued b t / b.period.toNat)
    omega

theorem add_above (hn : 0 ≤ n.toInt) (hW : 0 ≤ W) (hs : -W ≤ s.tokens.toInt) :
    -W ≤ (s.add b n).tokens.toInt := by
  have hceiling : 0 < b.ceiling.toInt := b.capacity.balance_pos
  rcases add_cases s b hn with ⟨-, tokens, -⟩ | ⟨-, tokens, -⟩
  · rw [tokens]
    omega
  · omega

end Slot

namespace Account

def ClearedBy (a : Account) (T : Nat) : Prop := ∀ i l s, a.At i l s → s.ClearedBy l T

def Above (a : Account) (W : Int) : Prop := ∀ i l s, a.At i l s → -W ≤ s.tokens.toInt

def Past (a : Account) (T : Nat) : Prop := ∀ i l s, a.At i l s → s.lastRefill.toNat ≤ T

/-- From `a` to `a'` every slot is given `net` tokens and comes to reading `t`. What the ceiling cuts
off may be lost. -/
def Nets (a : Account) (t : UInt64) (net : Int) (a' : Account) : Prop :=
  ∀ i l s', a'.At i l s' → ∃ s, a.At i l s ∧ s'.lastRefill = t ∧ 0 ≤ s.lost s' l net

variable {a a' work : Account} {n : Amount} {d : Nanos} {t : UInt64} {T : Nat} {W : Int}
  {answer : Answer}

theorem new_above (c : Configuration) (now : UInt64) (hW : 0 ≤ W) : (new c now).Above W := by
  intro i l s hat
  obtain ⟨-, rfl⟩ := new_at.mp hat
  have hceiling : 0 < l.ceiling.toInt := l.capacity.balance_pos
  rw [Slot.new, Balance.toInt_min, toInt_ofIntClamp]
  omega

theorem new_past (c : Configuration) (now : UInt64) : (new c now).Past now.toNat := by
  intro i l s hat
  obtain ⟨-, rfl⟩ := new_at.mp hat
  exact le_rfl

theorem Refills.nets (h : a.Refills t work) (past : a.Past t.toNat) : a.Nets t 0 work := by
  intro i l s' hat'
  obtain ⟨s, hat, hr⟩ := h.slots hat'
  refine ⟨s, hat, UInt64.toNat_inj.mp ?_, hr.lost_nonneg⟩
  rw [hr.lastRefill_eq, max_eq_right (past i l s hat)]

theorem Refills.clearedBy (h : a.Refills t work) (past : a.Past t.toNat) (ht : t.toNat ≤ T)
    (ha : a.ClearedBy T) : work.ClearedBy T := by
  intro i l s' hat'
  obtain ⟨s, hat, hr⟩ := h.slots hat'
  exact hr.clearedBy ((past i l s hat).trans ht) ht (ha i l s hat)

theorem Nets.past (h : a.Nets t net a') : a'.Past t.toNat := by
  intro i l s' hat'
  obtain ⟨s, -, last, -⟩ := h i l s' hat'
  rw [last]

theorem Commits.add (h : a.Commits (.add n) t answer a') (past : a.Past t.toNat) :
    a.Nets t n.balance.toInt a' ∧ (0 ≤ W → a.Above W → a'.Above W) ∧
      ∀ T, t.toNat ≤ T → a.ClearedBy T → a'.ClearedBy T := by
  obtain ⟨work, refilled, published, -⟩ := h
  obtain rfl : work.add n.balance = a' := Option.some.inj published
  have hr := refills_of_ok refilled
  have hn := n.balance_pos.le
  refine ⟨?_, ?_, ?_⟩
  · intro i l s' hat'
    obtain ⟨s₁, hat₁, rfl⟩ := add_at.mp hat'
    obtain ⟨s, hat, last, hlost⟩ := hr.nets past i l s₁ hat₁
    refine ⟨s, hat, by rw [Slot.add_lastRefill, last], ?_⟩
    have hsum := Slot.lost_trans s s₁ (s₁.add l n.balance) l 0 n.balance.toInt
    rw [zero_add] at hsum
    rw [hsum]
    exact add_nonneg hlost (Slot.add_lost_nonneg hn)
  · intro hW above i l s' hat'
    obtain ⟨s₁, hat₁, rfl⟩ := add_at.mp hat'
    obtain ⟨s, hat, hrefills⟩ := hr.slots hat₁
    exact Slot.add_above hn hW (hrefills.above hW (above i l s hat))
  · intro T ht cleared i l s' hat'
    obtain ⟨s₁, hat₁, rfl⟩ := add_at.mp hat'
    exact Slot.add_clearedBy hn (hr.clearedBy past ht cleared i l s₁ hat₁)

/-- Tokens that are reserved when nothing is owed any more: the charge is all that is owed then, and
the delay clears it. -/
theorem Commits.reserve (h : a.Commits (.reserve n .infinite) t (.wait d) a') (ends : ¬d.isInfinite)
    (ha : a.Steady) (past : a.Past t.toNat) (cleared : a.ClearedBy t.toNat) :
    a.Nets t (-n.balance.toInt) a' ∧ a'.Above n.balance.toInt ∧
      ∀ T, t.toNat + d.val.toNat ≤ T → a'.ClearedBy T := by
  obtain ⟨work, refilled, published, answered⟩ := h
  have hr := refills_of_ok refilled
  have hcarry : ∀ i l s, work.At i l s → s.carry.toNat < l.period.toNat :=
    fun _ _ _ => hr.carry_lt fun _ => ha.carry_lt
  have granted : (Request.reserve n .infinite).grant?
      ((Request.reserve n .infinite).operation work).answer = some d := by
    rw [answered]
    exact if_neg ends
  obtain ⟨m, hm, hcharge, charged, grants⟩ := Request.exists_charge granted
  obtain rfl : work.consume m = a' := Option.some.inj (hcharge.symm.trans published)
  have hmn : n.balance.toInt = m.toInt := by
    rw [answered] at charged
    exact (if_neg ends).symm.trans charged
  have hslot : ∀ {i l s₁}, work.At i l s₁ →
      s₁.lastRefill = t ∧ 0 ≤ s₁.tokens.toInt ∧ -2 ^ 63 ≤ s₁.tokens.toInt - m.toInt := by
    intro i l s₁ hat₁
    obtain ⟨s, hat, hrefills⟩ := hr.slots hat₁
    obtain ⟨-, -, last, -⟩ := hr.nets past i l s₁ hat₁
    have := hrefills.tokens_nonneg (ha.carry_lt hat) (cleared i l s hat)
    have := m.toInt_lt
    exact ⟨last, by omega, by omega⟩
  rw [hmn]
  refine ⟨?_, ?_, ?_⟩
  · intro i l s' hat'
    obtain ⟨s₁, hat₁, rfl⟩ := consume_at.mp hat'
    obtain ⟨last, -, room⟩ := hslot hat₁
    obtain ⟨s, hat, -, hlost⟩ := hr.nets past i l s₁ hat₁
    refine ⟨s, hat, last, ?_⟩
    have hsum := Slot.lost_trans s s₁ (s₁.consume m) l 0 (-m.toInt)
    rw [zero_add, Slot.consume_lost hm.le room, add_zero] at hsum
    rw [hsum]
    exact hlost
  · intro i l s' hat'
    obtain ⟨s₁, hat₁, rfl⟩ := consume_at.mp hat'
    obtain ⟨-, solvent, room⟩ := hslot hat₁
    rw [Slot.consume_tokens hm.le room]
    omega
  · intro T hT i l s' hat'
    obtain ⟨s₁, hat₁, rfl⟩ := consume_at.mp hat'
    obtain ⟨last, -⟩ := hslot hat₁
    refine (clears_of_grant (hr.paired ha.paired) hcarry hm grants i l _ hat').mono ?_
    rw [Slot.consume_lastRefill, last]
    omega

end Account

namespace Bucket

/-- The bucket was made for `c` at reading `t₀`, and has come to its clock since by calls that kept
the limits. Nothing that it published owes more than `W` tokens, and every slot has been given `net`
tokens beside what time has brought. -/
structure Backed (c : Configuration) (t₀ : UInt64) (W net : Int) (b : Bucket) : Prop where
  history : ∃ log, (Edition.first (.new c t₀)).Chain log b.published ∧ (∀ x ∈ log, x.Keeps) ∧
    ∀ e ∈ Commit.editions c t₀ log, e.account.Above W
  past : b.account.Past b.clock.now.toNat
  conserved : ∀ i l s, b.account.At i l s → 0 ≤ (Slot.new l t₀).lost s l net

namespace Backed

variable {c : Configuration} {t₀ : UInt64} {W net m : Int} {b : Bucket} {a : Account} {r : Request}
  {answer : Answer} {n : Amount} {d : Nanos}

theorem new (s : Strategy) (clock : Clock) (c : Configuration) (hW : 0 ≤ W) :
    (Bucket.new s clock c).Backed c clock.now W 0 where
  history := ⟨[], .nil _, by simp, List.forall_mem_singleton.mpr (Account.new_above c clock.now hW)⟩
  past := Account.new_past c clock.now
  conserved i l s hat := by
    obtain ⟨-, rfl⟩ := Account.new_at.mp hat
    exact ((Slot.new l clock.now).lost_self l).ge

theorem steady (h : b.Backed c t₀ W net) : b.account.Steady := by
  obtain ⟨log, chain, keeps, -⟩ := h.history
  exact chain.steady (.new c t₀) keeps

theorem configuration_eq (h : b.Backed c t₀ W net) : b.account.configuration = c := by
  obtain ⟨log, chain, keeps, -⟩ := h.history
  exact chain.configuration_eq (.new c t₀) keeps

theorem above (h : b.Backed c t₀ W net) : b.account.Above W := by
  obtain ⟨log, chain, -, above⟩ := h.history
  exact above b.published (List.mem_of_getLast? chain.getLast?)

theorem move (h : b.Backed c t₀ W net) {clock : Clock}
    (later : b.clock.now.toNat ≤ clock.now.toNat) : ({ b with clock } : Bucket).Backed c t₀ W net :=
  ⟨h.history, fun i l s hat => (h.past i l s hat).trans later, h.conserved⟩

theorem settle (h : b.Backed c t₀ W net) (commits : b.account.Commits r b.clock.now answer a)
    (keeps : ∀ c, r ≠ .replace c) (nets : b.account.Nets b.clock.now m a) (above : a.Above W) :
    (b.settle (some a)).Backed c t₀ W (net + m) where
  history := by
    obtain ⟨log, chain, hkeeps, habove⟩ := h.history
    let x : Commit := ⟨0, r, b.clock.now, answer, b.published.succ a⟩
    have last : b.published.Chain [x] x.edition := .cons commits rfl (.nil _)
    refine ⟨log ++ [x], chain.append last, ?_, ?_⟩
    · intro y hy
      rcases List.mem_append.mp hy with hy | hy
      · exact hkeeps y hy
      · rw [List.mem_singleton.mp hy]
        exact keeps
    · intro e he
      rw [Commit.editions, List.map_append, ← List.cons_append] at he
      rcases List.mem_append.mp he with he | he
      · exact habove e he
      · rw [List.mem_singleton.mp he]
        exact above
  past := nets.past
  conserved i l s' hat' := by
    obtain ⟨s, hat, -, hlost⟩ := nets i l s' hat'
    rw [Slot.lost_trans _ s]
    exact add_nonneg (h.conserved i l s hat) hlost

theorem add (h : b.Backed c t₀ W net) (hW : 0 ≤ W) (n : Amount) :
    (b.perform (Operation.add n)).bucket.Backed c t₀ W (net + n.balance.toInt) ∧
      (b.perform (Operation.add n)).bucket.clock = b.clock ∧
      ∀ T, b.clock.now.toNat ≤ T → b.account.ClearedBy T →
        (b.perform (Operation.add n)).bucket.account.ClearedBy T := by
  obtain ⟨work, refilled, -, hperform⟩ := b.perform_ok (Operation.add n)
  have commits : b.account.Commits (.add n) b.clock.now .added (work.add n.balance) :=
    .intro work refilled rfl rfl
  obtain ⟨nets, above, cleared⟩ := commits.add (W := W) h.past
  rw [hperform]
  exact ⟨h.settle commits nofun nets (above hW h.above), rfl, cleared⟩

theorem reserve (h : b.Backed c t₀ W net) (cleared : b.account.ClearedBy b.clock.now.toNat)
    (hn : n.balance.toInt ≤ W) (ends : ¬d.isInfinite)
    (commits : b.account.Commits (.reserve n .infinite) b.clock.now (.wait d) a) :
    (b.settle (some a)).Backed c t₀ W (net - n.balance.toInt) ∧
      ∀ T, b.clock.now.toNat + d.val.toNat ≤ T → a.ClearedBy T := by
  obtain ⟨nets, above, hcleared⟩ := commits.reserve ends h.steady h.past cleared
  refine ⟨h.settle commits nofun nets fun i l s hat => ?_, hcleared⟩
  exact (neg_le_neg hn).trans (above i l s hat)

theorem refilled (h : b.Backed c t₀ W net) (cleared : b.account.ClearedBy b.clock.now.toNat)
    {work : Account} (hr : b.account.Refills b.clock.now work) {i : Nat} {l : Bandwidth} {s : Slot}
    (hat : work.At i l s) :
    0 ≤ s.tokens.toInt ∧ s.lastRefill = b.clock.now ∧ 0 ≤ (Slot.new l t₀).lost s l net := by
  obtain ⟨s₀, hat₀, hrefills⟩ := hr.slots hat
  obtain ⟨-, -, last, -⟩ := hr.nets h.past i l s hat
  refine ⟨hrefills.tokens_nonneg (h.steady.carry_lt hat₀) (cleared i l s₀ hat₀), last, ?_⟩
  have hsum := Slot.lost_trans (Slot.new l t₀) s₀ s l net 0
  rw [add_zero] at hsum
  rw [hsum]
  exact add_nonneg (h.conserved i l s₀ hat₀) hrefills.lost_nonneg

end Backed
end Bucket
end Throttle
