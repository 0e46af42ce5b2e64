import Mathlib.Algebra.Order.BigOperators.Group.List
import Mathlib.Data.List.Pairwise
import Throttle.Proofs.Sequences
import Throttle.Proofs.ZeroWait

/-! Reservations in parts. Each part of a reservation is measured from the debt that the parts before
it have left, and so it waits as long as all of them together would have from the beginning. How a
reservation is cut into parts makes no difference to the wait for the last of them, nor to the ledger
that they leave. -/

namespace Throttle

namespace Slot

variable {s s' : Slot} {b : Bandwidth} {n n' x : Balance}

/-- Under one limit, with equal carries, whoever is short of less waits no longer. -/
theorem delay_le_delay (short : n.toInt - s.tokens.toInt ≤ n'.toInt - s'.tokens.toInt)
    (carry : s'.carry = s.carry) : s.delay b n ≤ s'.delay b n' := by
  by_cases there : n.toInt ≤ s.tokens.toInt
  · rw [delay_of_le there]
    exact Nanos.le_iff.mpr (Nat.zero_le _)
  have hlt : s.tokens.toInt < n.toInt := not_le.mp there
  have hlt' : s'.tokens.toInt < n'.toInt := by omega
  by_cases hr : b.refill = 0
  · rw [delay_of_never hlt hr, delay_of_never hlt' hr]
  have hdue : (n.toInt - s.tokens.toInt).toNat * b.period.toNat ≤
      (n'.toInt - s'.tokens.toInt).toNat * b.period.toNat := Nat.mul_le_mul_right _ (by omega)
  rw [Nanos.le_iff, toNat_delay hlt hr, toNat_delay hlt' hr, carry]
  exact min_le_min_right _ (Nat.div_le_div_right (by omega))

theorem consume_consume (hx : 0 ≤ x.toInt) (hn : 0 ≤ n.toInt) (sum : n'.toInt = x.toInt + n.toInt)
    (room : -2 ^ 63 ≤ s.tokens.toInt - n'.toInt) : (s.consume x).consume n = s.consume n' := by
  have hfirst : (s.consume x).tokens.toInt = s.tokens.toInt - x.toInt :=
    consume_tokens hx (by omega)
  have htokens : ((s.consume x).consume n).tokens.toInt = (s.consume n').tokens.toInt := by
    rw [consume_tokens hn (by omega), consume_tokens (by omega) room, hfirst]
    omega
  rw [consume, consume, consume, Slot.mk.injEq]
  exact ⟨Int64.toInt_inj.mp htokens, rfl, rfl⟩

end Slot

namespace Account

variable {a a' : Account} {n n' x y : Balance} {m : Int}

/-- No slot falls below the least balance when `m` tokens are taken. -/
def HasRoom (a : Account) (m : Int) : Prop := ∀ s ∈ a.ledger.slots, -2 ^ 63 ≤ s.tokens.toInt - m

theorem HasRoom.consume (h : a.HasRoom (x.toInt + m)) (hx : 0 ≤ x.toInt) (hm : 0 ≤ m) :
    (a.consume x).HasRoom m := by
  intro s' hs'
  obtain ⟨s, hs, rfl⟩ := List.mem_map.mp hs'
  have := h s hs
  rw [Slot.consume_tokens hx (by omega)]
  omega

theorem HasRoom.tokens_consume (h : a.HasRoom m) {i : Nat} {b : Bandwidth} {s : Slot}
    (hat : a.At i b s) (hx : 0 ≤ x.toInt) (hle : x.toInt ≤ m) :
    (s.consume x).tokens.toInt = s.tokens.toInt - x.toInt := by
  have := h s (List.mem_of_getElem? hat.2)
  exact Slot.consume_tokens hx (by omega)

theorem delay_le_delay
    (h : ∀ i b s, a.At i b s → ∃ s', a'.At i b s' ∧ s.delay b n ≤ s'.delay b n') :
    a.delay n ≤ a'.delay n' := by
  rw [delay_le_iff]
  intro i b s hat
  obtain ⟨s', hat', hle⟩ := h i b s hat
  exact hle.trans ((delay_le_iff a' n').mp le_rfl i b s' hat')

theorem delay_le_delay_consume (room : a.HasRoom m) (hx : 0 ≤ x.toInt) (hle : x.toInt ≤ m)
    (hy : 0 ≤ y.toInt) : a.delay x ≤ (a.consume x).delay y := by
  refine delay_le_delay fun i b s hat => ⟨s.consume x, consume_at.mpr ⟨s, hat, rfl⟩, ?_⟩
  refine Slot.delay_le_delay ?_ rfl
  rw [room.tokens_consume hat hx hle]
  omega

/-- What is asked for after a charge waits as long as both together. -/
theorem delay_consume (room : a.HasRoom m) (hx : 0 ≤ x.toInt) (hle : x.toInt ≤ m)
    (sum : n'.toInt = x.toInt + n.toInt) : (a.consume x).delay n = a.delay n' := by
  have htokens : ∀ {i b s}, a.At i b s →
      n.toInt - (s.consume x).tokens.toInt = n'.toInt - s.tokens.toInt := by
    intro i b s hat
    rw [room.tokens_consume hat hx hle]
    omega
  apply le_antisymm
  · refine delay_le_delay fun i b s' hat' => ?_
    obtain ⟨s, hat, rfl⟩ := consume_at.mp hat'
    exact ⟨s, hat, Slot.delay_le_delay (htokens hat).le rfl⟩
  · refine delay_le_delay fun i b s hat => ⟨s.consume x, consume_at.mpr ⟨s, hat, rfl⟩, ?_⟩
    exact Slot.delay_le_delay (htokens hat).ge rfl

theorem consume_consume (room : a.HasRoom n'.toInt) (hx : 0 ≤ x.toInt) (hn : 0 ≤ n.toInt)
    (sum : n'.toInt = x.toInt + n.toInt) : (a.consume x).consume n = a.consume n' := by
  have hslots : a.ledger.slots.map (fun s => (s.consume x).consume n) =
      a.ledger.slots.map (·.consume n') :=
    List.map_congr_left fun s hs => Slot.consume_consume hx hn sum (room s hs)
  rw [consume, consume, consume, Ledger.consume, Ledger.consume, Ledger.consume, ← hslots,
    List.map_map]
  rfl

end Account

namespace Amount

def total (xs : List Amount) : Int := (xs.map (·.balance.toInt)).sum

theorem total_cons (x : Amount) (xs : List Amount) :
    total (x :: xs) = x.balance.toInt + total xs := List.sum_cons

theorem total_nonneg (xs : List Amount) : 0 ≤ total xs := by
  apply List.sum_nonneg
  intro n hn
  obtain ⟨x, -, rfl⟩ := List.mem_map.mp hn
  exact x.balance_pos.le

theorem total_eq {xs : List Amount} (fits : (xs.map (·.val.toNat)).sum < 2 ^ 63) :
    total xs = (xs.map (·.val.toNat)).sum := by
  induction xs with
  | nil => rfl
  | cons x xs ih =>
    have hbalance := x.toInt_balance
    rw [List.map_cons, List.sum_cons] at fits ⊢
    rw [total_cons, ih (by omega)]
    omega

theorem exists_toInt_eq_total {n : Balance} {x : Amount} {xs : List Amount}
    (sum : n.toInt = total (x :: xs)) : ∃ k : Balance, k.toInt = total xs := by
  have hxs := total_nonneg xs
  have hpos := x.balance_pos
  have hlt := n.toInt_lt
  rw [total_cons] at sum
  exact ⟨Int64.ofInt (total xs), Int64.toInt_ofInt_of_le (by omega) (by omega)⟩

end Amount

namespace Account

open Amount

variable {a : Account} {n : Balance} {x : Amount} {xs : List Amount}

def waits (a : Account) : List Amount → List Nanos
  | [] => []
  | x :: xs => a.delay x.balance :: (a.consume x.balance).waits xs

def drawn (a : Account) : List Amount → Account
  | [] => a
  | x :: xs => (a.consume x.balance).drawn xs

theorem HasRoom.rest (h : a.HasRoom (total (x :: xs))) : (a.consume x.balance).HasRoom (total xs) := by
  rw [total_cons] at h
  exact h.consume x.balance_pos.le (total_nonneg xs)

theorem balance_le_total (x : Amount) (xs : List Amount) : x.balance.toInt ≤ total (x :: xs) := by
  have := total_nonneg xs
  rw [total_cons]
  omega

/-- One after another the amounts come to what they come to together: the last one waits as long, and
what is left is the same. -/
theorem last_wait_and_drawn (room : a.HasRoom (total (x :: xs))) (sum : n.toInt = total (x :: xs)) :
    (a.waits (x :: xs)).getLast? = some (a.delay n) ∧ a.drawn (x :: xs) = a.consume n := by
  induction xs generalizing a x n with
  | nil =>
    obtain rfl : x.balance = n := Int64.toInt_inj.mp (sum.trans (add_zero _)).symm
    exact ⟨rfl, rfl⟩
  | cons y ys ih =>
    -- by induction the rest is one amount, asked for from the debt that the first one leaves
    obtain ⟨k, hk⟩ := exists_toInt_eq_total sum
    have hparts : n.toInt = x.balance.toInt + k.toInt := by rw [sum, hk, total_cons]
    obtain ⟨hlast, hdrawn⟩ := ih room.rest hk
    constructor
    · rw [delay_consume room x.balance_pos.le (balance_le_total x _) hparts] at hlast
      exact List.getLast?_cons_cons.trans hlast
    · rw [drawn, hdrawn]
      exact consume_consume (sum ▸ room) x.balance_pos.le (hk ▸ total_nonneg _) hparts

theorem pairwise_waits (room : a.HasRoom (total xs)) : (a.waits xs).Pairwise (· ≤ ·) := by
  rw [← List.isChain_iff_pairwise]
  induction xs generalizing a with
  | nil => exact .nil
  | cons x xs ih =>
    have hrest := ih room.rest
    cases xs with
    | nil => exact .singleton _
    | cons y ys =>
      refine List.isChain_cons_cons.mpr ⟨?_, hrest⟩
      exact delay_le_delay_consume room x.balance_pos.le (balance_le_total x _) y.balance_pos.le

theorem waits_end_iff (room : a.HasRoom (total (x :: xs))) (sum : n.toInt = total (x :: xs)) :
    (∀ d ∈ a.waits (x :: xs), ¬d.isInfinite) ↔ ¬(a.delay n).isInfinite := by
  obtain ⟨hlast, -⟩ := last_wait_and_drawn room sum
  constructor
  · intro hall
    exact hall _ (List.mem_of_getLast? hlast)
  · intro hends d hd
    obtain ⟨ds, hds⟩ := List.getLast?_eq_some_iff.mp hlast
    have hle : d ≤ a.delay n := by
      have hsorted := pairwise_waits room
      rw [hds, List.pairwise_append] at hsorted
      rw [hds, List.mem_append, List.mem_singleton] at hd
      rcases hd with hd | rfl
      · exact hsorted.2.2 d hd _ (List.mem_singleton_self _)
      · exact le_rfl
    have hlt := (a.delay n).val.toNat_lt
    rw [Nanos.le_iff] at hle
    rw [Nanos.isInfinite_iff] at hends ⊢
    omega

end Account

namespace Bucket

variable {b : Bucket} {n : Amount} {work : Account}

def reservations (xs : List Amount) : List Action := xs.map fun n => .call (.reserve n .infinite)

theorem reservations_cons (x : Amount) (xs : List Amount) :
    reservations (x :: xs) = .call (.reserve x .infinite) :: reservations xs := rfl

theorem act_reserve (refilled : b.account.refill b.clock.now = .ok work) :
    b.act (.call (.reserve n .infinite)) =
      if (work.delay n.balance).isInfinite then ⟨.answered (.wait .infinite), b, []⟩
      else ⟨.answered (.wait (work.delay n.balance)), b.settle (some (work.consume n.balance)),
        if (work.delay n.balance).isZero then [] else [.reserved n.balance (work.delay n.balance)]⟩ := by
  have hnever : ¬Nanos.infinite < work.delay n.balance := by
    have hlt := (work.delay n.balance).val.toNat_lt
    have hinfinite : Nanos.infinite.val.toNat = 2 ^ 64 - 1 := rfl
    rw [Nanos.lt_iff]
    omega
  rw [act_of_request rfl refilled]
  simp only [Request.operation, Operation.reserve_eq, or_false, hnever]
  split <;> rfl

/-- One after another the reservations are answered by waits. All of these end if all waits for the
amounts do, and then they are these. -/
theorem actAll_reservations (refilled : b.account.refill b.clock.now = .ok work) (xs : List Amount) :
    ∃ ds, (b.actAll (reservations xs)).answer = ds.map (fun d => .answered (.wait d)) ∧
      ((∀ d ∈ ds, ¬d.isInfinite) ↔ ∀ d ∈ work.waits xs, ¬d.isInfinite) ∧
      ((∀ d ∈ ds, ¬d.isInfinite) → ds = work.waits xs ∧
        (xs ≠ [] → (b.actAll (reservations xs)).bucket.account = work.drawn xs)) := by
  induction xs generalizing b work with
  | nil => exact ⟨[], rfl, Iff.rfl, fun _ => ⟨rfl, fun h => absurd rfl h⟩⟩
  | cons x xs ih =>
    have hact := act_reserve (n := x) refilled
    by_cases hends : (work.delay x.balance).isInfinite
    · -- the first one is refused, so the others find the bucket as it was
      rw [if_pos hends] at hact
      obtain ⟨ds, hds, -⟩ := ih refilled
      have hnot : ¬∀ d ∈ Nanos.infinite :: ds, ¬d.isInfinite :=
        fun h => h _ (List.mem_cons_self ..) rfl
      have hnot' : ¬∀ d ∈ work.waits (x :: xs), ¬d.isInfinite :=
        fun h => h _ (List.mem_cons_self ..) hends
      refine ⟨.infinite :: ds, ?_, iff_of_false hnot hnot', fun h => absurd h hnot⟩
      rw [reservations_cons, actAll_cons, hact, hds, List.map_cons]
    · rw [if_neg hends] at hact
      have again := (Account.refills_of_ok refilled).refill_consume x.balance_pos
      obtain ⟨ds, hds, hiff, hall⟩ := ih (b := b.settle (some (work.consume x.balance))) again
      rw [reservations_cons, actAll_cons, hact]
      refine ⟨work.delay x.balance :: ds, ?_, ?_, fun h => ?_⟩
      · rw [hds, List.map_cons]
      · rw [Account.waits, List.forall_mem_cons, List.forall_mem_cons, hiff]
      · obtain ⟨rfl, haccount⟩ := hall (List.forall_mem_cons.mp h).2
        refine ⟨rfl, fun _ => ?_⟩
        by_cases hxs : xs = []
        · subst hxs
          rfl
        · exact haccount hxs

/-- Reserving these amounts one after another, answered by `ds`, comes to the same as reserving all of
them at once, answered by `d`. -/
structure SplitsInto (b : Bucket) (total : Amount) (xs : List Amount) (ds : List Nanos) (d : Nanos) :
    Prop where
  parts : (b.actAll (reservations xs)).answer = ds.map fun d => .answered (.wait d)
  whole : (b.act (.call (.reserve total .infinite))).answer = .answered (.wait d)
  granted_iff : (∀ d ∈ ds, ¬d.isInfinite) ↔ ¬d.isInfinite
  published : ¬d.isInfinite → (b.actAll (reservations xs)).bucket.account =
    (b.act (.call (.reserve total .infinite))).bucket.account
  last : ¬d.isInfinite → ds.getLast? = some d
  sorted : ¬d.isInfinite → ds.Pairwise (· ≤ ·)

/-- Splitting a reservation changes nothing, in any state and at any reading, as long as a balance can
count all parts together and has room for them below every slot. -/
theorem reserve_splits (b : Bucket) {total : Amount} {xs : List Amount}
    (sum : total.val.toNat = (xs.map (·.val.toNat)).sum) (fits : total.val.toNat < 2 ^ 63) :
    ∃ work, b.account.refill b.clock.now = .ok work ∧
      (work.HasRoom total.val.toNat → ∃ ds d, b.SplitsInto total xs ds d) := by
  obtain ⟨work, refilled, -⟩ := b.account.refill_ok b.clock.now
  refine ⟨work, refilled, fun room => ?_⟩
  have htotal : total.balance.toInt = Amount.total xs := by
    rw [Amount.total_eq (sum ▸ fits), Amount.toInt_balance, ← sum]
    omega
  have hcount : (total.val.toNat : Int) = Amount.total xs := by
    rw [Amount.total_eq (sum ▸ fits), sum]
  rw [hcount] at room
  obtain ⟨ds, hparts, hiff, hall⟩ := actAll_reservations refilled xs
  have hact := act_reserve (n := total) refilled
  cases xs with
  | nil => exact absurd (UInt64.toNat_inj.mp sum) total.positive
  | cons x xs =>
    obtain ⟨hlast, hdrawn⟩ := Account.last_wait_and_drawn room htotal
    have hends := hiff.trans (Account.waits_end_iff room htotal)
    by_cases hinfinite : (work.delay total.balance).isInfinite
    · rw [if_pos hinfinite] at hact
      refine ⟨ds, .infinite, hparts, by rw [hact], ?_, ?_, ?_, ?_⟩
      · exact iff_of_false (fun h => hends.mp h hinfinite) (fun h => h rfl)
      all_goals exact fun h => absurd rfl h
    · rw [if_neg hinfinite] at hact
      obtain ⟨rfl, haccount⟩ := hall (hends.mpr hinfinite)
      refine ⟨_, _, hparts, by rw [hact], hends, fun _ => ?_, fun _ => hlast,
        fun _ => Account.pairwise_waits room⟩
      rw [haccount (List.cons_ne_nil x xs), hdrawn, hact]
      rfl

def fastAndSlow : Configuration :=
  ⟨[{ Bandwidth.perSecond ⟨200, by decide⟩ with initial := some 35 },
    { Bandwidth.perSecond .one with capacity := ⟨1000, by decide⟩, initial := some 80 }],
    by decide, by decide⟩

def altogether : Amount := ⟨146, by decide⟩

def inParts : List Amount :=
  [⟨35, by decide⟩, ⟨36, by decide⟩, ⟨37, by decide⟩, ⟨38, by decide⟩]

/-- The first part is there, the fast limit governs the second, and the slow one the others: the last
of them waits 66 seconds, as all tokens do together. -/
theorem reserve_splits_governed :
    ∃ ds, (new .atomic (.manual 0) fastAndSlow).SplitsInto altogether inParts ds ⟨66000000000⟩ ∧
      ds.getLast? = some ⟨66000000000⟩ := by
  have refilled : (new .atomic (.manual 0) fastAndSlow).account.refill 0 =
      .ok ⟨fastAndSlow, ⟨[⟨35, 0, 0⟩, ⟨80, 0, 0⟩]⟩⟩ := by decide +kernel
  have sum : altogether.val.toNat = (inParts.map (·.val.toNat)).sum := by decide
  have room : Account.HasRoom ⟨fastAndSlow, ⟨[⟨35, 0, 0⟩, ⟨80, 0, 0⟩]⟩⟩ altogether.val.toNat := by
    unfold Account.HasRoom
    decide
  obtain ⟨work, hwork, hall⟩ :=
    reserve_splits (new .atomic (.manual 0) fastAndSlow) sum (by decide)
  obtain rfl : _ = work := Except.ok.inj (refilled.symm.trans hwork)
  obtain ⟨ds, d, hsplits⟩ := hall room
  have hwhole := hsplits.whole
  rw [act_reserve refilled, if_neg (by decide +kernel)] at hwhole
  obtain rfl : (⟨66000000000⟩ : Nanos) = d := by
    rw [← Answer.wait.inj (Reply.answered.inj hwhole)]
    decide +kernel
  exact ⟨ds, hsplits, hsplits.last (by decide)⟩

end Bucket
end Throttle
