import Mathlib.Algebra.Order.Interval.Finset.SuccPred
import Mathlib.Data.Nat.SuccPred
import Mathlib.Data.Set.Finite.Basic
import Mathlib.Order.Interval.Finset.Nat
import Mathlib.Order.Interval.Set.Infinite
import Throttle.Proofs.Linearizability

/-! Lost races. The loop of a call has no measure of its own: it goes round again whenever another
caller has published since it took its copy. So each failed swap has a swap of another caller to
blame, which no other failed swap of the same caller blames, and the attempts of a call are counted
by what the others publish meanwhile. What a call reports is this count. -/

namespace Throttle

namespace Call

/-- The call decides to publish, and its swap finds another edition than the one that it expects. -/
def swapFails (c : Call Answer) (s : Strategy) (published : Edition) : Bool :=
  match c.work.refill c.reading with
  | .error _ => false
  | .ok work =>
    match (c.operation work).publish with
    | none => false
    | some a => (s.swap published c.previous a).1.isSome

theorem swapFails_iff {c : Call Answer} {s : Strategy} {published : Edition} :
    c.swapFails s published ↔ ∃ c', (c.tryOnce s published).progress = .running c' := by
  obtain ⟨work, refilled, -⟩ := c.work.refill_ok c.reading
  rw [swapFails, tryOnce, refilled]
  dsimp only
  cases (c.operation work).publish with
  | none => simp
  | some a =>
    dsimp only
    obtain ⟨winner, after⟩ := s.swap published c.previous a
    cases winner with
    | none => simp
    | some winner => simp

theorem toNat_ofNatClamp (n : Nat) : (UInt32.ofNatClamp n).toNat = min n (2 ^ 32 - 1) := by
  rcases lt_or_ge n UInt32.size with h | h
  · rw [UInt32.toNat_ofNatClamp_of_lt h]
    exact (min_eq_left (Nat.le_pred_of_lt h)).symm
  · rw [UInt32.toNat_ofNatClamp_of_le h]
    exact (min_eq_right (Nat.sub_le_of_le_add (Nat.le_succ_of_le h))).symm

theorem nextAttempt_ofNatClamp (n : Nat) :
    nextAttempt (UInt32.ofNatClamp n) = UInt32.ofNatClamp (n + 1) := by
  apply UInt32.toNat_inj.mp
  rw [nextAttempt, toNat_ofNatClamp, toNat_ofNatClamp, toNat_ofNatClamp]
  omega

theorem swapFails_unshared (c : Call Answer) (published : Edition) :
    c.swapFails .unshared published = false := by
  unfold swapFails
  split
  · rfl
  · split <;> rfl

end Call

def Event.isRace : Event → Bool
  | .lostRace _ | .published _ => true
  | _ => false

/-- What a call reports that has lost `n` races: each of them with its number, as far as that counts. -/
def Event.losses (n : Nat) : List Event :=
  (List.range n).map fun i => .lostRace (UInt32.ofNatClamp (i + 1))

theorem Event.losses_succ (n : Nat) :
    losses (n + 1) = losses n ++ [.lostRace (UInt32.ofNatClamp (n + 1))] := by
  rw [losses, List.range_succ, List.map_append]
  rfl

theorem Request.filter_reports (r : Request) (a : Account) :
    (r.operation a).reports.filter Event.isRace = [] := by
  cases r with
  | consume n => simp only [operation, Operation.consume]; split <;> rfl
  | consumeUpTo limit => simp only [operation, Operation.consumeUpTo]; split <;> rfl
  | probe n => simp only [operation, Operation.probe]; split <;> rfl
  | reserve n maxWait =>
    simp only [operation, Operation.reserve]
    split
    · rfl
    · split <;> rfl
  | add n => rfl
  | replace c => simp only [operation, Operation.replace]; split <;> rfl
  | available => rfl

def Happening.races (k : Nat) (hs : List Happening) : List Event :=
  hs.filterMap fun
    | .reported j e => if j = k ∧ e.isRace then some e else none
    | _ => none

namespace Happening

theorem races_append (k : Nat) (hs hs' : List Happening) :
    races k (hs ++ hs') = races k hs ++ races k hs' := List.filterMap_append

theorem races_reported (k : Nat) (es : List Event) :
    races k (es.map (.reported k)) = es.filter Event.isRace := by
  induction es with
  | nil => rfl
  | cons e es ih =>
    rw [List.map_cons, races, List.filterMap_cons, List.filter_cons]
    cases h : e.isRace <;> simp [h, ← ih, races]

theorem races_reported_of_ne {k j : Nat} (h : j ≠ k) (es : List Event) :
    races k (es.map (.reported j)) = [] := by
  simp [races, h]

end Happening

namespace World

variable {w w' : World} {m : Move} {hs : List Happening} {ms : List Move} {k b i j : Nat}
  {r : Request} {t : UInt64}

inductive Fares (w : World) (m : Move) (k : Nat) (w' : World) (hs : List Happening) : Prop
  | same (standing : w'.standing k = w.standing k)
      (unready : m = .attempt k → ∀ r c, w.standing k ≠ .running r c)
      (moved : w'.published ≠ w.published → m.caller ≠ k) (quiet : Happening.races k hs = [])
  | called (r : Request) (t : UInt64) (move : m = .call k r t) (idle : w.standing k = .idle)
      (standing : w'.standing k = .called r t) (quiet : Happening.races k hs = [])
  | loaded (r : Request) (t : UInt64) (move : m = .load k) (before : w.standing k = .called r t)
      (standing : w'.standing k = .running r (.load r.operation t w.published))
      (quiet : Happening.races k hs = [])
  | lost (r : Request) (c : Call Answer) (move : m = .attempt k)
      (before : w.standing k = .running r c) (behind : c.previous.number < w.published.number)
      (still : w'.published = w.published)
      (standing : w'.standing k = .running r (c.restart r w.published))
      (reported : Happening.races k hs = [.lostRace (Call.nextAttempt c.attempt)])
  | ended (r : Request) (c : Call Answer) (answer : Answer) (move : m = .attempt k)
      (before : w.standing k = .running r c) (standing : w'.standing k = .idle)
      (returned : .returned k r c.reading answer ∈ hs)
      (reported : Happening.races k hs = if w'.published = w.published then [] else c.retried)

theorem filter_retried (c : Call Answer) : c.retried.filter Event.isRace = c.retried := by
  unfold Call.retried
  split <;> rfl

theorem Steps.fares (h : w.Steps m w' hs) (k : Nat) : w.Fares m k w' hs := by
  cases h with
  | ignored _ unready =>
    exact .same rfl (fun hm r c running => unready (hm ▸ ⟨r, c, running⟩)) (fun moved => absurd rfl moved)
      rfl
  | called j r t idle =>
    by_cases hk : k = j
    · subst hk
      exact .called r t rfl idle (put_standing_self ..) rfl
    · exact .same (put_standing_of_ne _ _ hk) nofun (fun moved => absurd rfl moved) rfl
  | loaded j r t called =>
    by_cases hk : k = j
    · subst hk
      exact .loaded r t rfl called (put_standing_self ..) rfl
    · exact .same (put_standing_of_ne _ _ hk) nofun (fun moved => absurd rfl moved) rfl
  | skipped j r c work running =>
    by_cases hk : k = j
    · subst hk
      refine .ended r c (r.operation work).answer rfl running (put_standing_self ..) (by simp) ?_
      rw [Happening.races_append, Happening.races_reported, r.filter_reports]
      exact (if_pos rfl).symm
    · refine .same (put_standing_of_ne _ _ hk) (fun hm => absurd (Move.attempt.inj hm).symm hk)
        (fun moved => absurd rfl moved) ?_
      rw [Happening.races_append, Happening.races_reported_of_ne (Ne.symm hk)]
      rfl
  | committed j r c work a' running =>
    by_cases hk : k = j
    · subst hk
      refine .ended r c (r.operation work).answer rfl running (put_standing_self ..) (by simp) ?_
      have hn : w.published.succ a' ≠ w.published := fun h =>
        Nat.succ_ne_self _ (congrArg Edition.number h)
      rw [if_neg hn, Happening.races_append, ← List.singleton_append, Happening.races_append,
        Happening.races_reported, List.filter_append, r.filter_reports, filter_retried]
      simp [Happening.races]
    · refine .same (put_standing_of_ne _ _ hk) (fun hm => absurd (Move.attempt.inj hm).symm hk)
        (fun _ => Ne.symm hk) ?_
      rw [Happening.races_append, ← List.singleton_append, Happening.races_append,
        Happening.races_reported_of_ne (Ne.symm hk)]
      rfl
  | lost j r c running behind =>
    by_cases hk : k = j
    · subst hk
      exact .lost r c rfl running behind rfl (put_standing_self ..)
        (by simp [Happening.races, Event.isRace])
    · exact .same (put_standing_of_ne _ _ hk) (fun hm => absurd (Move.attempt.inj hm).symm hk)
        (fun moved => absurd rfl moved) (by simp [Happening.races, Ne.symm hk])

end World

def Standing.swapFails (s : Strategy) (published : Edition) : Standing → Bool
  | .running _ c => c.swapFails s published
  | _ => false

namespace World

/-- Move `j` is an attempt of caller `k` whose swap fails. -/
def LosesAt (w : World) (ms : List Move) (k j : Nat) : Prop :=
  ms[j]? = some (.attempt k) ∧
    ((w.after ms j).standing k).swapFails (w.after ms j).strategy (w.after ms j).published

instance (w : World) (ms : List Move) (k j : Nat) : Decidable (w.LosesAt ms k j) :=
  inferInstanceAs (Decidable (_ ∧ _))

/-- Move `j` publishes what a call of another caller than `k` has made. -/
def OvertakesAt (w : World) (ms : List Move) (k j : Nat) : Prop :=
  (w.after ms (j + 1)).published ≠ (w.after ms j).published ∧ (ms[j]?).map Move.caller ≠ some k

instance (w : World) (ms : List Move) (k j : Nat) : Decidable (w.OvertakesAt ms k j) :=
  inferInstanceAs (Decidable (_ ∧ _))

def losses (w : World) (ms : List Move) (k b i : Nat) : Finset Nat :=
  {j ∈ Finset.Ico b i | w.LosesAt ms k j}

def rivals (w : World) (ms : List Move) (k b i : Nat) : Finset Nat :=
  {j ∈ Finset.Ico b i | w.OvertakesAt ms k j}

def attempts (ms : List Move) (k b i : Nat) : Finset Nat :=
  {j ∈ Finset.Ico b i | ms[j]? = some (.attempt k)}

variable {w : World} {ms : List Move} {k b i j : Nat} {r : Request} {t : UInt64}

theorem step_attempt {c : Call Answer} (running : w.standing k = .running r c) :
    (∃ c', (w.step (.attempt k)).1.standing k = .running r c') ↔
      c.swapFails w.strategy w.published := by
  rw [Call.swapFails_iff, step, running]
  dsimp only
  generalize c.tryOnce w.strategy w.published = turn
  obtain ⟨progress, published, events⟩ := turn
  cases progress with
  | running c' => simp [put_standing_self]
  | returned answer => simp [put_standing_self]
  | faulted fault => simp [put_standing_self]

/-- A swap has failed when the call is still at work after the attempt. -/
theorem losesAt_iff (hm : ms[j]? = some (.attempt k)) :
    w.LosesAt ms k j ↔ ∃ r c c', (w.after ms j).standing k = .running r c ∧
      (w.after ms (j + 1)).standing k = .running r c' := by
  rw [LosesAt, and_iff_right hm, after_succ hm]
  cases hst : (w.after ms j).standing k with
  | idle => simp [Standing.swapFails]
  | called => simp [Standing.swapFails]
  | running r c =>
    rw [Standing.swapFails, ← step_attempt hst]
    simp

theorem Consistent.fares_after {m : Move} (hw : w.Consistent) (hm : ms[i]? = some m) (k : Nat) :
    (w.after ms i).Fares m k (w.after ms (i + 1)) ((w.after ms i).step m).2 :=
  (hw.steps_after hm).fares k

/-- While a call is at work, each of its attempts has lost. -/
theorem Began.losesAt (hw : w.Consistent) (h : w.Began ms k r t b i) (hb : b < j) (hj : j < i)
    (hm : ms[j]? = some (.attempt k)) {r' : Request} {c : Call Answer}
    (running : (w.after ms j).standing k = .running r' c) : w.LosesAt ms k j := by
  have busy := h.busy (j + 1) (by omega) hj
  rw [losesAt_iff hm]
  cases hw.fares_after hm k with
  | same _ unready => exact absurd running (unready rfl r' c)
  | called r' t' _ idle => rw [running] at idle; cases idle
  | loaded r' t' _ before => rw [running] at before; cases before
  | lost r' c _ before _ _ standing => exact ⟨r', c, _, before, standing⟩
  | ended r' c answer _ _ standing => exact absurd standing busy

theorem not_losesAt {m : Move} (hm : ms[j]? = some m) (other : m ≠ .attempt k) : ¬w.LosesAt ms k j :=
  fun h => other (Option.some.inj (hm.symm.trans h.1))

theorem LosesAt.exists_restart (hw : w.Consistent) (h : w.LosesAt ms k j) :
    ∃ r c, (w.after ms j).standing k = .running r c ∧
      c.previous.number < (w.after ms j).published.number ∧
      (w.after ms (j + 1)).standing k = .running r (c.restart r (w.after ms j).published) := by
  obtain ⟨r, c, c', running, running'⟩ := (losesAt_iff h.1).mp h
  cases hw.fares_after h.1 k with
  | same _ unready => exact absurd running (unready rfl r c)
  | called r' t' _ idle => rw [running] at idle; cases idle
  | loaded r' t' _ before => rw [running] at before; cases before
  | lost r' c' _ before behind _ standing => exact ⟨r', c', before, behind, standing⟩
  | ended r' c' answer _ _ standing => rw [running'] at standing; cases standing

theorem LosesAt.changed (hw : w.Consistent) (h : w.LosesAt ms k j) :
    (w.after ms (j + 1)).standing k ≠ (w.after ms j).standing k := by
  obtain ⟨r, c, running, behind, standing⟩ := h.exists_restart hw
  rw [running, standing]
  intro heq
  have previous : (w.after ms j).published = c.previous :=
    congrArg Call.previous (Standing.running.inj heq).2
  rw [previous] at behind
  exact lt_irrefl _ behind

/-- Each failed swap has one of another caller to blame, since the call came by its copy. -/
theorem LosesAt.exists_rival (hw : w.Consistent) (idle : ∀ k, w.standing k = .idle)
    (h : w.LosesAt ms k j) :
    ∃ q p, w.OvertakesAt ms k q ∧ w.Supplies ms k p j ∧ p < q ∧ q < j := by
  obtain ⟨hj, -⟩ := List.getElem?_eq_some_iff.mp h.1
  obtain ⟨r, c, running, behind, -⟩ := h.exists_restart hw
  have explains := explained hw idle k j hj.le
  rw [running] at explains
  obtain ⟨b, p, -, supplies, -, previous, published⟩ := explains
  -- Had nothing been published since the copy was taken, the swap would have found what it expects.
  obtain ⟨q, hpq, hqj, moved⟩ : ∃ q, p < q ∧ q < j ∧
      (w.after ms (q + 1)).published ≠ (w.after ms q).published := by
    by_contra hnone
    push Not at hnone
    have hsame := published_eq supplies.lt fun l hl hlj => hnone l hl hlj
    rw [published, ← previous] at hsame
    rw [hsame] at behind
    exact lt_irrefl _ behind
  refine ⟨q, p, ⟨moved, fun hcaller => ?_⟩, supplies, hpq, hqj⟩
  -- It is no swap of the call itself, which has stood still since.
  obtain ⟨m, hq, rfl⟩ := Option.map_eq_some_iff.mp hcaller
  have hkept := supplies.kept (q + 1) (by omega) hqj
  rw [running] at hkept
  cases hw.fares_after hq m.caller with
  | same _ _ other => exact other moved rfl
  | called r' t' _ _ standing => rw [hkept] at standing; cases standing
  | loaded r' t' _ before =>
    rw [supplies.kept q hpq hqj.le, running] at before
    cases before
  | lost _ _ _ _ _ still => exact moved still
  | ended r' c answer _ _ standing => rw [hkept] at standing; cases standing

theorem LosesAt.le_of_supplies {p j' : Nat} (hw : w.Consistent) (h : w.LosesAt ms k j) (hj : j < j')
    (supplies : w.Supplies ms k p j') : j ≤ p := by
  by_contra hp
  apply h.changed hw
  rw [supplies.kept (j + 1) (by omega) hj, supplies.kept j (by omega) hj.le]

/-- The failed swaps of a caller blame different ones. -/
theorem exists_rivals (hw : w.Consistent) (idle : ∀ k, w.standing k = .idle) (k : Nat) :
    ∃ rival : Nat → Nat, Set.InjOn rival {j | w.LosesAt ms k j} ∧
      ∀ j, w.LosesAt ms k j → w.OvertakesAt ms k (rival j) ∧
        ∃ p, w.Supplies ms k p j ∧ p < rival j ∧ rival j < j := by
  have hall : ∀ j, ∃ q, w.LosesAt ms k j →
      w.OvertakesAt ms k q ∧ ∃ p, w.Supplies ms k p j ∧ p < q ∧ q < j := by
    intro j
    by_cases h : w.LosesAt ms k j
    · obtain ⟨q, p, overtakes, rest⟩ := h.exists_rival hw idle
      exact ⟨q, fun _ => ⟨overtakes, p, rest⟩⟩
    · exact ⟨0, fun h' => absurd h' h⟩
  choose rival hrival using hall
  -- The later of two swaps took its copy after the earlier one, and blames what came after that.
  have hne : ∀ j j', w.LosesAt ms k j → w.LosesAt ms k j' → j < j' → rival j < rival j' := by
    intro j j' h h' hj
    obtain ⟨-, p, -, -, hlt⟩ := hrival j h
    obtain ⟨-, p', supplies, hlt', -⟩ := hrival j' h'
    have := h.le_of_supplies hw hj supplies
    omega
  refine ⟨rival, fun j h j' h' heq => ?_, hrival⟩
  rcases lt_trichotomy j j' with hj | hj | hj
  · exact absurd heq (hne j j' h h' hj).ne
  · exact hj
  · exact absurd heq (hne j' j h' h hj).ne'

/-- A call loses no more races than others publish while it is at work. -/
theorem Began.card_losses_le (hw : w.Consistent) (idle : ∀ k, w.standing k = .idle)
    (h : w.Began ms k r t b i) : (w.losses ms k b i).card ≤ (w.rivals ms k b i).card := by
  obtain ⟨rival, injective, hrival⟩ := @exists_rivals _ ms hw idle k
  refine Finset.card_le_card_of_injOn rival (fun j hj => ?_) (injective.mono fun j hj => ?_)
  · obtain ⟨hmem, loses⟩ := Finset.mem_filter.mp hj
    obtain ⟨hbj, hji⟩ := Finset.mem_Ico.mp hmem
    obtain ⟨overtakes, p, supplies, hlo, hhi⟩ := hrival j loses
    have hp : b ≤ p := by
      -- the caller was idle when the call began
      by_contra hp
      obtain ⟨r', c, running, -⟩ := loses.exists_restart hw
      have hkept := supplies.kept b (by omega) hbj
      rw [h.idle, running] at hkept
      cases hkept
    exact Finset.mem_filter.mpr ⟨Finset.mem_Ico.mpr ⟨by omega, by omega⟩, overtakes⟩
  · exact (Finset.mem_filter.mp hj).2

def during (w : World) (ms : List Move) (b i : Nat) : List Happening :=
  (w.seen ms i).drop (w.seen ms b).length

theorem during_self (w : World) (ms : List Move) (i : Nat) : w.during ms i i = [] := List.drop_length

theorem run_take (w : World) (ms : List Move) {b i : Nat} (hb : b ≤ i) :
    w.run (ms.take i) = (((w.after ms b).run ((ms.take i).drop b)).1,
      w.seen ms b ++ ((w.after ms b).run ((ms.take i).drop b)).2) := by
  have htake : ms.take i = ms.take b ++ (ms.take i).drop b := by
    conv_lhs => rw [← List.take_append_drop b (ms.take i), List.take_take, min_eq_left hb]
  conv_lhs => rw [htake, run_append]
  rfl

theorem seen_prefix (w : World) (ms : List Move) {b i : Nat} (hb : b ≤ i) :
    w.seen ms b <+: w.seen ms i := by
  change _ <+: (w.run (ms.take i)).2
  rw [run_take w ms hb]
  exact List.prefix_append _ _

theorem during_succ {m : Move} (hb : b ≤ i) (hm : ms[i]? = some m) :
    w.during ms b (i + 1) = w.during ms b i ++ ((w.after ms i).step m).2 := by
  rw [during, during, seen_succ hm, List.drop_append_of_le_length (w.seen_prefix ms hb).length_le]

theorem card_losses_succ (w : World) (ms : List Move) (k : Nat) (hb : b ≤ i) :
    (w.losses ms k b (i + 1)).card =
      (w.losses ms k b i).card + if w.LosesAt ms k i then 1 else 0 := by
  rw [losses, ← Finset.insert_Ico_right_eq_Ico_add_one hb, Finset.filter_insert]
  split
  · rw [Finset.card_insert_of_notMem (by simp)]
    rfl
  · rfl

/-- How a call of caller `k` that was begun with move `b` stands after `i` moves, when it has lost `n`
races: it has counted them, and reported nothing about races but them. -/
structure Tallies (w : World) (ms : List Move) (k : Nat) (r : Request) (t : UInt64) (b i n : Nat) :
    Prop where
  reported : Happening.races k (w.during ms b i) = Event.losses n
  standing : (w.after ms i).standing k = .called r t ∧ n = 0 ∨
    ∃ c, (w.after ms i).standing k = .running r c ∧ c.reading = t ∧ c.attempt = UInt32.ofNatClamp n

theorem Began.tallies_called (hw : w.Consistent) (h : w.Began ms k r t b (b + 1)) :
    w.Tallies ms k r t b (b + 1) 0 := by
  have busy := h.busy (b + 1) (Nat.lt_succ_self b) le_rfl
  cases hw.fares_after h.move k with
  | same standing => exact absurd (standing.trans h.idle) busy
  | called r' t' move _ standing quiet =>
    cases move
    refine ⟨?_, .inl ⟨standing, rfl⟩⟩
    rw [during_succ le_rfl h.move, during_self, List.nil_append, quiet]
    rfl
  | loaded _ _ move => cases move
  | lost _ _ move => cases move
  | ended _ _ _ move => cases move

theorem Tallies.reported_quiet {m : Move} {n : Nat} (h : w.Tallies ms k r t b i n) (hb : b ≤ i)
    (hm : ms[i]? = some m) (quiet : Happening.races k ((w.after ms i).step m).2 = []) :
    Happening.races k (w.during ms b (i + 1)) = Event.losses n := by
  rw [during_succ hb hm, Happening.races_append, quiet, List.append_nil, h.reported]

/-- A call that is still at work after a move has counted the race that it lost in it, if it did. -/
theorem Tallies.succ {m : Move} {n : Nat} (hw : w.Consistent) (h : w.Tallies ms k r t b i n)
    (hb : b ≤ i) (hm : ms[i]? = some m) (busy : (w.after ms i).standing k ≠ .idle)
    (still : (w.after ms (i + 1)).standing k ≠ .idle) :
    w.Tallies ms k r t b (i + 1) (n + if w.LosesAt ms k i then 1 else 0) := by
  cases hw.fares_after hm k with
  | same same unready _ quiet =>
    have hloses : ¬w.LosesAt ms k i := by
      intro loses
      obtain ⟨r', c, running, -⟩ := loses.exists_restart hw
      exact unready (Option.some.inj (hm.symm.trans loses.1)) r' c running
    rw [if_neg hloses]
    exact ⟨h.reported_quiet hb hm quiet, by rw [same]; exact h.standing⟩
  | called r' t' _ idle => exact absurd idle busy
  | loaded r' t' move before standing quiet =>
    rw [if_neg (not_losesAt hm (by rw [move]; exact nofun))]
    rcases h.standing with ⟨called, hn⟩ | ⟨c, running, -⟩
    · rw [called] at before
      cases before
      refine ⟨h.reported_quiet hb hm quiet, .inr ⟨_, standing, rfl, ?_⟩⟩
      rw [hn]
      rfl
    · rw [running] at before
      cases before
  | lost r' c move before _ _ standing reported =>
    have hloses : w.LosesAt ms k i := by
      rw [losesAt_iff (hm.trans (by rw [move]))]
      exact ⟨r', c, _, before, standing⟩
    rw [if_pos hloses]
    rcases h.standing with ⟨called, -⟩ | ⟨c', running, reading, attempt⟩
    · rw [called] at before
      cases before
    · rw [running] at before
      cases before
      refine ⟨?_, .inr ⟨_, standing, reading, ?_⟩⟩
      · rw [during_succ hb hm, Happening.races_append, h.reported, reported, attempt,
          Call.nextAttempt_ofNatClamp, Event.losses_succ]
      · rw [← Call.nextAttempt_ofNatClamp, ← attempt]
        rfl
  | ended _ _ _ _ _ idle => exact absurd idle still

/-- As long as it is at work, a call has counted the races that it has lost. -/
theorem Began.tallies (hw : w.Consistent) (h : w.Began ms k r t b i) (hi : i ≤ ms.length) :
    w.Tallies ms k r t b i (w.losses ms k b i).card := by
  have hlt : b + 1 ≤ i := h.lt
  induction i, hlt using Nat.le_induction with
  | base =>
    rw [card_losses_succ _ _ _ le_rfl, if_neg (not_losesAt h.move nofun), losses, Finset.Ico_self,
      Finset.filter_empty, Finset.card_empty, add_zero]
    exact h.tallies_called hw
  | succ i hlt ih =>
    obtain ⟨m, hm⟩ : ∃ m, ms[i]? = some m := ⟨_, List.getElem?_eq_getElem (by omega)⟩
    have hb : b ≤ i := by omega
    have began : w.Began ms k r t b i :=
      ⟨h.move, hlt, h.idle, fun l hl hli => h.busy l hl (by omega)⟩
    rw [card_losses_succ _ _ _ hb]
    exact (ih began (by omega)).succ hw hb hm (began.busy i hlt le_rfl) (h.busy (i + 1) (by omega) le_rfl)

/-- A call that is over has returned. It has reported its lost races, and that it published after
them if it did. -/
theorem Began.concluded (hw : w.Consistent) (h : w.Began ms k r t b i) (hi : i < ms.length)
    (gone : (w.after ms (i + 1)).standing k = .idle) :
    (∃ answer, .returned k r t answer ∈ w.during ms i (i + 1)) ∧
      Happening.races k (w.during ms b (i + 1)) = Event.losses (w.losses ms k b i).card ++
        if (w.after ms (i + 1)).published = (w.after ms i).published ∨ (w.losses ms k b i).card = 0
        then [] else [.published (UInt32.ofNatClamp (w.losses ms k b i).card)] := by
  obtain ⟨m, hm⟩ : ∃ m, ms[i]? = some m := ⟨_, List.getElem?_eq_getElem hi⟩
  have busy := h.busy i h.lt le_rfl
  obtain ⟨reported, standing⟩ := h.tallies hw hi.le
  cases hw.fares_after hm k with
  | same same => exact absurd (same.symm.trans gone) busy
  | called _ _ _ idle => exact absurd idle busy
  | loaded _ _ _ _ standing' => rw [gone] at standing'; cases standing'
  | lost _ _ _ _ _ _ standing' => rw [gone] at standing'; cases standing'
  | ended r' c answer _ before _ returned reported' =>
    rcases standing with ⟨called, -⟩ | ⟨c', running, reading, attempt⟩
    · rw [called] at before
      cases before
    · rw [running] at before
      cases before
      have hzero : c.attempt = 0 ↔ (w.losses ms k b i).card = 0 := by
        rw [← UInt32.toNat_inj, attempt, Call.toNat_ofNatClamp, UInt32.toNat_zero]
        omega
      refine ⟨⟨answer, ?_⟩, ?_⟩
      · rw [during_succ le_rfl hm, during_self, ← reading]
        exact returned
      · rw [during_succ h.lt.le hm, Happening.races_append, reported, reported', Call.retried,
          ← attempt]
        simp only [hzero, ite_or]

theorem Began.gone_or_running (hw : w.Consistent) (h : w.Began ms k r t b i) {c : Call Answer}
    (running : (w.after ms i).standing k = .running r c) {i' : Nat} (hle : i ≤ i')
    (hi' : i' ≤ ms.length) :
    (∃ j, i ≤ j ∧ j < i' ∧ w.Began ms k r t b j ∧ (w.after ms (j + 1)).standing k = .idle) ∨
      w.Began ms k r t b i' ∧ ∀ j, i ≤ j → j ≤ i' →
        ∃ c', (w.after ms j).standing k = .running r c' := by
  induction i', hle using Nat.le_induction with
  | base =>
    refine .inr ⟨h, fun j hj hj' => ?_⟩
    obtain rfl : j = i := le_antisymm hj' hj
    exact ⟨c, running⟩
  | succ i' hle ih =>
    rcases ih (by omega) with ⟨j, hj, hj', gone⟩ | ⟨began, atWork⟩
    · exact .inl ⟨j, hj, by omega, gone⟩
    obtain ⟨m, hm⟩ : ∃ m, ms[i']? = some m := ⟨_, List.getElem?_eq_getElem (by omega)⟩
    obtain ⟨c', running'⟩ := atWork i' hle le_rfl
    have hnext : (w.after ms (i' + 1)).standing k = .idle ∨
        ∃ c', (w.after ms (i' + 1)).standing k = .running r c' := by
      cases hw.fares_after hm k with
      | same same => exact .inr ⟨c', same.trans running'⟩
      | called _ _ _ idle => rw [running'] at idle; cases idle
      | loaded _ _ _ before => rw [running'] at before; cases before
      | lost _ _ _ before _ _ standing =>
        rw [running'] at before
        cases before
        exact .inr ⟨_, standing⟩
      | ended _ _ _ _ _ gone => exact .inl gone
    rcases hnext with gone | ⟨c'', running''⟩
    · exact .inl ⟨i', hle, Nat.lt_succ_self i', began, gone⟩
    · refine .inr ⟨began.succ (by rw [running'']; exact nofun), fun j hj hj' => ?_⟩
      rcases Nat.lt_or_eq_of_le hj' with hj' | rfl
      · exact atWork j hj (Nat.lt_succ_iff.mp hj')
      · exact ⟨c'', running''⟩

/-- A call that has made more attempts than others have published since it began has returned. -/
theorem Began.returns (hw : w.Consistent) (idle : ∀ k, w.standing k = .idle)
    (h : w.Began ms k r t b i) {c : Call Answer}
    (running : (w.after ms i).standing k = .running r c) {i' : Nat} (hle : i ≤ i')
    (hi' : i' ≤ ms.length) (hlt : (w.rivals ms k b i').card < (attempts ms k i i').card) :
    ∃ j answer, i ≤ j ∧ j < i' ∧ .returned k r t answer ∈ w.during ms j (j + 1) := by
  rcases h.gone_or_running hw running hle hi' with ⟨j, hj, hj', began, gone⟩ | ⟨began, atWork⟩
  · obtain ⟨⟨answer, returned⟩, -⟩ := began.concluded hw (by omega) gone
    exact ⟨j, answer, hj, hj', returned⟩
  · refine absurd hlt (not_lt.mpr (le_trans (Finset.card_le_card fun j hj => ?_)
      (began.card_losses_le hw idle)))
    obtain ⟨hmem, hm⟩ := Finset.mem_filter.mp hj
    obtain ⟨hij, hji⟩ := Finset.mem_Ico.mp hmem
    obtain ⟨c', running'⟩ := atWork j hij hji.le
    have hbj : b < j := h.lt.trans_le hij
    exact Finset.mem_filter.mpr ⟨Finset.mem_Ico.mpr ⟨hbj.le, hji⟩,
      began.losesAt hw hbj hji hm running'⟩

structure LockFree (w : World) (ms : List Move) : Prop where
  /-- Each failed swap of a caller has one of another caller to blame, after the load or the failed
  swap that gave it its copy, and no two blame the same one. -/
  accounted : ∀ k, ∃ rival : Nat → Nat, Set.InjOn rival {j | w.LosesAt ms k j} ∧
    ∀ j, w.LosesAt ms k j → w.OvertakesAt ms k (rival j) ∧
      ∃ p, w.Supplies ms k p j ∧ p < rival j ∧ rival j < j
  /-- A call loses no more races than others publish while it is at work. -/
  bounded : ∀ {k r t b i}, w.Began ms k r t b i → i ≤ ms.length →
    (w.losses ms k b i).card ≤ (w.rivals ms k b i).card
  /-- So it has returned when it has made one attempt more. -/
  returns : ∀ {k r t b i c i'}, w.Began ms k r t b i → (w.after ms i).standing k = .running r c →
    i ≤ i' → i' ≤ ms.length → (w.rivals ms k b i').card < (attempts ms k i i').card →
    ∃ j answer, i ≤ j ∧ j < i' ∧ .returned k r t answer ∈ w.during ms j (j + 1)
  /-- At work it reports the races that it has lost, by their numbers. -/
  reported : ∀ {k r t b i}, w.Began ms k r t b i → i ≤ ms.length →
    Happening.races k (w.during ms b i) = Event.losses (w.losses ms k b i).card
  /-- When it is over it has returned, and reported that it published if it did after lost races. -/
  concluded : ∀ {k r t b i}, w.Began ms k r t b i → i < ms.length →
    (w.after ms (i + 1)).standing k = .idle →
    (∃ answer, .returned k r t answer ∈ w.during ms i (i + 1)) ∧
      Happening.races k (w.during ms b (i + 1)) = Event.losses (w.losses ms k b i).card ++
        if (w.after ms (i + 1)).published = (w.after ms i).published ∨ (w.losses ms k b i).card = 0
        then [] else [.published (UInt32.ofNatClamp (w.losses ms k b i).card)]

theorem Consistent.lockFree (hw : w.Consistent) (idle : ∀ k, w.standing k = .idle) (ms : List Move) :
    w.LockFree ms where
  accounted := exists_rivals hw idle
  bounded h _ := h.card_losses_le hw idle
  returns h running hle hi' hlt := h.returns hw idle running hle hi' hlt
  reported h hi := (h.tallies hw hi).reported
  concluded h hi gone := h.concluded hw hi gone

def first (schedule : Nat → Move) (n : Nat) : List Move := (List.range n).map schedule

section

variable {schedule : Nat → Move} {n q : Nat}

theorem length_first : (first schedule n).length = n := by simp [first]

theorem getElem?_first (hq : q < n) : (first schedule n)[q]? = some (schedule q) := by
  simp [first, hq]

theorem take_first (hq : q ≤ n) : (first schedule n).take q = first schedule q := by
  rw [first, ← List.map_take, List.take_range, min_eq_left hq, first]

theorem after_first (hq : q ≤ n) : w.after (first schedule n) q = (w.run (first schedule q)).1 := by
  rw [after, take_first hq]

theorem during_first (hq : q < n) :
    w.during (first schedule n) q (q + 1) = ((w.run (first schedule q)).1.step (schedule q)).2 := by
  rw [during_succ le_rfl (getElem?_first hq), during_self, List.nil_append, after_first hq.le]

theorem overtakesAt_first (hq : q < n) :
    w.OvertakesAt (first schedule n) k q ↔ w.OvertakesAt (first schedule (q + 1)) k q := by
  rw [OvertakesAt, OvertakesAt, getElem?_first hq, getElem?_first (Nat.lt_succ_self q),
    after_first (n := n) hq, after_first (n := n) hq.le, after_first (n := q + 1) le_rfl,
    after_first (n := q + 1) (Nat.le_succ q)]

end

/-- In a schedule that goes on for ever, a call that is given attempts again and again returns if
others publish only finitely often. -/
def Live (w : World) (schedule : Nat → Move) : Prop :=
  ∀ k r c i, (w.run (first schedule i)).1.standing k = .running r c →
    {q | w.OvertakesAt (first schedule (q + 1)) k q}.Finite → {q | schedule q = .attempt k}.Infinite →
    ∃ j answer, i ≤ j ∧
      .returned k r c.reading answer ∈ ((w.run (first schedule j)).1.step (schedule j)).2

theorem Consistent.live (hw : w.Consistent) (idle : ∀ k, w.standing k = .idle)
    (schedule : Nat → Move) : w.Live schedule := by
  intro k r c i running finite infinite
  -- From move `i` on, the caller is given more attempts than there are rivals, by some moment `n`.
  obtain ⟨tries, hsub, hcard⟩ := (infinite.sdiff (Set.finite_lt_nat i)).exists_subset_card_eq
    (finite.toFinset.card + 1)
  obtain ⟨n, hi, hn⟩ : ∃ n, i ≤ n ∧ ∀ j ∈ tries, j < n :=
    ⟨max i (tries.sup id + 1), le_max_left _ _, fun j hj =>
      lt_max_of_lt_right (Nat.lt_succ_of_le (Finset.le_sup (f := id) hj))⟩
  rw [← after_first hi] at running
  have explains := explained hw idle k i (length_first ▸ hi : i ≤ (first schedule n).length)
  rw [running] at explains
  obtain ⟨b, p, began, -⟩ := explains
  have hrivals : (w.rivals (first schedule n) k b n).card ≤ finite.toFinset.card := by
    refine Finset.card_le_card fun q hq => ?_
    obtain ⟨hmem, overtakes⟩ := Finset.mem_filter.mp hq
    rw [overtakesAt_first (Finset.mem_Ico.mp hmem).2] at overtakes
    exact finite.mem_toFinset.mpr overtakes
  have htries : tries.card ≤ (attempts (first schedule n) k i n).card := by
    refine Finset.card_le_card fun j hj => ?_
    obtain ⟨hm, hij⟩ := hsub hj
    refine Finset.mem_filter.mpr ⟨Finset.mem_Ico.mpr ⟨not_lt.mp hij, hn j hj⟩, ?_⟩
    rw [getElem?_first (hn j hj)]
    exact congrArg some hm
  obtain ⟨j, answer, hij, hjn, returned⟩ := began.returns hw idle running hi length_first.ge
    (by omega)
  rw [during_first hjn] at returned
  exact ⟨j, answer, hij, returned⟩

theorem step_strategy_eq (w : World) (m : Move) : (w.step m).1.strategy = w.strategy := by
  cases m with
  | call k r t => rw [step]; split <;> rfl
  | load k => rw [step]; split <;> rfl
  | attempt k =>
    rw [step]
    split
    · dsimp only
      split <;> rfl
    · rfl

theorem run_strategy_eq (w : World) (ms : List Move) : (w.run ms).1.strategy = w.strategy := by
  induction ms generalizing w with
  | nil => rfl
  | cons m ms ih => exact (ih _).trans (w.step_strategy_eq m)

theorem not_losesAt_unshared (unshared : w.strategy = .unshared) : ¬w.LosesAt ms k j := by
  rintro ⟨-, fails⟩
  have hs : (w.after ms j).strategy = .unshared := (run_strategy_eq ..).trans unshared
  rw [hs] at fails
  cases hst : (w.after ms j).standing k with
  | running r c =>
    rw [hst, Standing.swapFails, c.swapFails_unshared] at fails
    cases fails
  | _ =>
    rw [hst] at fails
    cases fails

/-- Lock-free progress, for any number of callers of a shared bucket: in every run of finitely many
moves the failed swaps are accounted for and reported, and in every schedule that goes on for ever a
call returns after finitely many attempts if others publish only finitely often. In a bucket that is
not shared no swap ever fails. -/
theorem lock_free (s : Strategy) (c : Configuration) (now : UInt64) :
    (s ≠ .unshared → (∀ ms, (new s c now).LockFree ms) ∧ ∀ schedule, (new s c now).Live schedule) ∧
      (s = .unshared → ∀ ms k j, ¬(new s c now).LosesAt ms k j) := by
  refine ⟨fun hs => ?_, fun hs ms k j => not_losesAt_unshared hs⟩
  have hw := new_consistent hs c now
  exact ⟨hw.lockFree fun _ => rfl, hw.live fun _ => rfl⟩

/-- Caller 0 has its copy when caller 1 consumes, and it has another one when caller 2 gives tokens
back. Its third attempt publishes. -/
def outrun : List Move :=
  [.call 0 (.consume ⟨14, by decide⟩) 0, .load 0] ++ Move.whole 1 (.consume ⟨16, by decide⟩) 0 ++
    [.attempt 0] ++ Move.whole 2 (.add ⟨19, by decide⟩) 0 ++ [.attempt 0, .attempt 0]

def outrunThenAlone (n : Nat) : Move := outrun[n]?.getD (.attempt 0)

theorem outrunThenAlone_of_le {n : Nat} (hn : 11 ≤ n) : outrunThenAlone n = .attempt 0 := by
  rw [outrunThenAlone, List.getElem?_eq_none hn]
  rfl

theorem lock_free_outrun :
    ∃ w, w = new .atomic (.single (.perSecond ⟨40, by decide⟩) (by decide)) 0 ∧
      Happening.races 0 (w.during outrun 0 11) = [.lostRace 1, .lostRace 2, .published 2] ∧
      ∃ j answer, 2 ≤ j ∧ .returned 0 (.consume ⟨14, by decide⟩) 0 answer ∈
        ((w.run (first outrunThenAlone j)).1.step (outrunThenAlone j)).2 := by
  refine ⟨_, rfl, ?_⟩
  obtain ⟨hfree, hlive⟩ := (lock_free .atomic (.single (.perSecond ⟨40, by decide⟩) (by decide)) 0).1
    (by decide)
  set w := new .atomic (.single (.perSecond ⟨40, by decide⟩) (by decide)) 0
  have busy : ∀ l < 11, 0 < l → ((w.after outrun l).standing 0).call? ≠ none := by decide +kernel
  have began : w.Began outrun 0 (.consume ⟨14, by decide⟩) 0 0 10 :=
    ⟨rfl, by decide, rfl, fun l hl hl' idle => busy l (by omega) hl (by rw [idle]; rfl)⟩
  have gone : (w.after outrun (10 + 1)).standing 0 = .idle :=
    Standing.call?_eq_none.mp (by decide +kernel)
  have hlosses : (w.losses outrun 0 0 10).card = 2 := by decide +kernel
  have moved : (w.after outrun (10 + 1)).published ≠ (w.after outrun 10).published := by decide +kernel
  have hi : 10 < outrun.length := by simp [outrun, Move.whole]
  obtain ⟨-, hraces⟩ := (hfree outrun).concluded began hi gone
  rw [hlosses, if_neg (not_or.mpr ⟨moved, by decide⟩)] at hraces
  refine ⟨hraces, ?_⟩
  have hfirst : first outrunThenAlone 2 = [.call 0 (.consume ⟨14, by decide⟩) 0, .load 0] := rfl
  refine hlive outrunThenAlone 0 (.consume ⟨14, by decide⟩)
    (.load (Request.consume ⟨14, by decide⟩).operation 0 w.published) 2 ?_ ?_ ?_
  · rw [hfirst]
    rfl
  · refine (Set.finite_lt_nat 11).subset fun q overtakes => ?_
    by_contra hq
    apply overtakes.2
    rw [getElem?_first (Nat.lt_succ_self q), outrunThenAlone_of_le (not_lt.mp hq)]
    rfl
  · exact (Set.Ici_infinite 11).mono fun q hq => outrunThenAlone_of_le hq

end World
end Throttle
