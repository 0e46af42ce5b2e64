import Throttle.Proofs.Grants
import Throttle.Proofs.Probes
import Throttle.Proofs.Schedules

/-! Tokens taken at once. All of an amount or none, as much of it as there is, and a probe that says
what is left are operations of their own, and a view of what is available publishes nothing. All four
go by one number, the least balance that a reading finds. -/

namespace Throttle

theorem Amount.exists_toNat_eq {k : Nat} (pos : 0 < k) (hk : k < 2 ^ 64) :
    ∃ n : Amount, n.val.toNat = k := by
  have hval : (UInt64.ofNat k).toNat = k := UInt64.toNat_ofNat'.trans (Nat.mod_eq_of_lt hk)
  refine ⟨⟨UInt64.ofNat k, fun hzero => ?_⟩, hval⟩
  rw [hzero, UInt64.toNat_zero] at hval
  omega

namespace Bucket

def Affords (b : Bucket) (k : Nat) : Prop :=
  k = 0 ∨ ∃ n : Amount, n.val.toNat = k ∧ (b.perform (Operation.consume n)).answer = .ok true

/-- The operations that wait for nothing agree on `n` tokens, of which a balance counts `m`, where `a`
tokens are available. -/
structure AgreesAtOnce (b : Bucket) (n : Amount) (m a : Int) : Prop where
  consumes : (b.perform (Operation.consume n)).answer = .ok (decide (m ≤ a))
  /-- A probe says what is left, which is all there was if it takes none. -/
  probes : ∃ found, (b.perform (Operation.probe n)).answer = .ok found ∧
    found.consumed = decide (m ≤ a) ∧ found.remaining.toInt = if m ≤ a then a - m else a
  takes : (b.perform (Operation.consumeUpTo n)).answer = .ok (max 0 (min m a)).toNat
  /-- No more than that would be taken all at once. -/
  greatest : IsGreatest {k : Nat | k ≤ m ∧ b.Affords k} (max 0 (min m a)).toNat
  /-- If all are there, each of the operations charges them to every slot, and the rest stays
  available. -/
  publishes : m ≤ a → ∃ work after rest, b.account.refill b.clock.now = .ok work ∧
    work.Charged m after.account ∧ (b.perform (Operation.consume n)).bucket = after ∧
    (b.perform (Operation.probe n)).bucket = after ∧
    (b.perform (Operation.consumeUpTo n)).bucket = after ∧
    (after.perform Operation.available).answer = .ok rest ∧ rest.toInt = a - m

variable {b : Bucket} {n : Amount} {work : Account}

theorem available_eq (refilled : b.account.refill b.clock.now = .ok work) :
    b.perform Operation.available = ⟨.ok work.available, b, []⟩ := perform_eq refilled _

theorem consumeUpTo_eq (refilled : b.account.refill b.clock.now = .ok work) :
    b.perform (Operation.consumeUpTo n) =
      if min n.balance work.available ≤ 0 then ⟨.ok 0, b, []⟩
      else ⟨.ok (min n.balance work.available).toInt.toNat,
        b.settle (some (work.consume (min n.balance work.available))), []⟩ := by
  rw [perform_eq refilled, Operation.consumeUpTo]
  split <;> rfl

theorem consume_answer (refilled : b.account.refill b.clock.now = .ok work) :
    (b.perform (Operation.consume n)).answer =
      .ok (decide (n.balance.toInt ≤ work.available.toInt)) := by
  rw [consume_eq refilled]
  by_cases there : n.balance.toInt ≤ work.available.toInt
  · rw [if_neg (by rw [Int64.lt_iff_toInt_lt]; omega), decide_eq_true there]
  · rw [if_pos (by rw [Int64.lt_iff_toInt_lt]; omega), decide_eq_false there]

theorem probe_answer (refilled : b.account.refill b.clock.now = .ok work) :
    ∃ found, (b.perform (Operation.probe n)).answer = .ok found ∧
      found.consumed = decide (n.balance.toInt ≤ work.available.toInt) ∧
      found.remaining.toInt =
        if n.balance.toInt ≤ work.available.toInt then work.available.toInt - n.balance.toInt
        else work.available.toInt := by
  rw [probe_eq refilled]
  by_cases there : n.balance.toInt ≤ work.available.toInt
  · rw [if_neg (by rw [Int64.lt_iff_toInt_lt]; omega), decide_eq_true there, if_pos there]
    exact ⟨_, rfl, rfl, Int64.toInt_sub_of_le _ _ (Int64.le_iff_toInt_le.mpr n.balance_pos.le)
      (Int64.le_iff_toInt_le.mpr there)⟩
  · rw [if_pos (by rw [Int64.lt_iff_toInt_lt]; omega), decide_eq_false there, if_neg there]
    exact ⟨_, rfl, rfl, rfl⟩

theorem consumeUpTo_answer (refilled : b.account.refill b.clock.now = .ok work) :
    (b.perform (Operation.consumeUpTo n)).answer =
      .ok (max 0 (min n.balance.toInt work.available.toInt)).toNat := by
  have hmin := Balance.toInt_min n.balance work.available
  rw [consumeUpTo_eq refilled]
  simp only [Int64.le_iff_toInt_le, hmin, Int64.toInt_zero]
  split
  · next none => rw [max_eq_left none, Int.toNat_zero]
  · next some => rw [max_eq_right (by omega)]

theorem affords_iff (refilled : b.account.refill b.clock.now = .ok work) {k : Nat}
    (hk : k < 2 ^ 63) : b.Affords k ↔ (k : Int) ≤ max 0 work.available.toInt := by
  constructor
  · rintro (rfl | ⟨n, rfl, granted⟩)
    · exact le_max_left ..
    · rw [consume_answer refilled] at granted
      have there := of_decide_eq_true (Except.ok.inj granted)
      rw [Amount.toInt_balance] at there
      omega
  · intro hle
    rcases Nat.eq_zero_or_pos k with rfl | pos
    · exact .inl rfl
    obtain ⟨n, hn⟩ := Amount.exists_toNat_eq pos (by omega)
    have hbalance := n.toInt_balance
    refine .inr ⟨n, hn, ?_⟩
    rw [consume_answer refilled, decide_eq_true (by omega)]

/-- What is taken of an amount is the most that a call would take all at once. -/
theorem isGreatest_affords (refilled : b.account.refill b.clock.now = .ok work) {m : Int}
    (hm : 0 < m) (hlt : m < 2 ^ 63) :
    IsGreatest {k : Nat | k ≤ m ∧ b.Affords k} (max 0 (min m work.available.toInt)).toNat := by
  constructor
  · refine ⟨by omega, (affords_iff refilled (by omega)).mpr ?_⟩
    omega
  · rintro k ⟨hle, affords⟩
    have := (affords_iff refilled (by omega)).mp affords
    omega

theorem bucket_of_le_available (refilled : b.account.refill b.clock.now = .ok work)
    (there : n.balance.toInt ≤ work.available.toInt) :
    (b.perform (Operation.consume n)).bucket = b.settle (some (work.consume n.balance)) ∧
      (b.perform (Operation.probe n)).bucket = b.settle (some (work.consume n.balance)) ∧
      (b.perform (Operation.consumeUpTo n)).bucket = b.settle (some (work.consume n.balance)) := by
  have hpos := n.balance_pos
  have hshort : ¬work.available < n.balance := by
    rw [Int64.lt_iff_toInt_lt]
    omega
  have hmin : min n.balance work.available = n.balance := by
    apply Int64.toInt_inj.mp
    rw [Balance.toInt_min, min_eq_left there]
  have hsome : ¬n.balance ≤ 0 := by
    rw [Int64.le_iff_toInt_le, Int64.toInt_zero]
    omega
  rw [consume_eq refilled, probe_eq refilled, consumeUpTo_eq refilled, hmin, if_neg hshort,
    if_neg hshort, if_neg hsome]
  exact ⟨rfl, rfl, rfl⟩

/-- The operations that wait for nothing agree with one another in every state that calls reach, at
every reading and for every amount, also where a smaller capacity is in force that has cut no balance
yet. -/
theorem immediate_agree (h : b.account.Reachable) (n : Amount) :
    ∃ a : Balance, b.perform Operation.available = ⟨.ok a, b, []⟩ ∧
      b.AgreesAtOnce n (min n.val.toNat (2 ^ 63 - 1)) a.toInt := by
  obtain ⟨work, refilled, hr⟩ := b.account.refill_ok b.clock.now
  have hp := hr.paired h.paired
  have hpos := n.balance_pos
  refine ⟨work.available, available_eq refilled, ?_⟩
  rw [← n.toInt_balance]
  refine ⟨consume_answer refilled, probe_answer refilled, consumeUpTo_answer refilled,
    isGreatest_affords refilled hpos n.balance.toInt_lt, fun there => ?_⟩
  obtain ⟨hconsume, hprobe, htake⟩ := bucket_of_le_available refilled there
  have charged : work.Charged n.balance.toInt (work.consume n.balance) := by
    refine (Account.charged_consume_iff hpos.le).mpr fun i l s hat => ?_
    have := Account.available_le hp hat
    omega
  -- the charged slots are up to date, so the same reading leaves them as they are
  have hview := available_eq (b := b.settle (some (work.consume n.balance)))
    (hr.refill_consume hpos)
  exact ⟨work, b.settle (some (work.consume n.balance)), _, refilled, charged, hconsume, hprobe, htake,
    congrArg Outcome.answer hview, Account.available_consume hp hpos.le there⟩

def fiftyPerSecond : Bandwidth := { Bandwidth.perSecond ⟨50, by decide⟩ with initial := some 40 }

def fiftyNarrower : Bandwidth :=
  { fiftyPerSecond with capacity := ⟨32, by decide⟩, initial := none }

def narrowed : Bucket :=
  ((waited fiftyPerSecond (by decide) 30000000).perform
    (Request.replace (.single fiftyNarrower (by decide))).operation).bucket

/-- Of the 41 tokens in the ledger 32 are available. Thirty of them can be taken, and of forty only
these 32. -/
theorem immediate_agree_narrowed :
    narrowed.account.Reachable ∧
      narrowed.account.ledger = ⟨[⟨41, 30000000, 500000000⟩]⟩ ∧
      narrowed.AgreesAtOnce ⟨30, by decide⟩ 30 32 ∧ narrowed.AgreesAtOnce ⟨40, by decide⟩ 40 32 := by
  have reachable : narrowed.account.Reachable :=
    ((waited_reachable fiftyPerSecond (by decide) 30000000).perform _).account
  have hbefore : (waited fiftyPerSecond (by decide) 30000000).account.refill 30000000 =
      .ok ⟨.single fiftyPerSecond (by decide), ⟨[⟨41, 30000000, 500000000⟩]⟩⟩ := by decide +kernel
  have haccount : narrowed.account =
      ⟨.single fiftyNarrower (by decide), ⟨[⟨41, 30000000, 500000000⟩]⟩⟩ := by
    rw [narrowed, perform_eq hbefore]
    decide +kernel
  have refilled : narrowed.account.refill narrowed.clock.now =
      .ok ⟨.single fiftyNarrower (by decide), ⟨[⟨32, 30000000, 0⟩]⟩⟩ := by
    rw [haccount, narrowed, perform_eq hbefore]
    decide +kernel
  obtain ⟨a, ha, hthirty⟩ := immediate_agree reachable ⟨30, by decide⟩
  obtain ⟨a', ha', hforty⟩ := immediate_agree reachable ⟨40, by decide⟩
  rw [available_eq refilled] at ha ha'
  cases ha
  cases ha'
  exact ⟨reachable, congrArg Account.ledger haccount, hthirty, hforty⟩

end Bucket

end Throttle
