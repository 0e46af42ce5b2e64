import Throttle.Proofs.Faults
import Throttle.Proofs.Histories

/-! Linearizability. The completed calls of any run, put in the order in which they took effect,
give the same answers and leave the same edition published when they are made one after another,
and no call comes before one that had returned when it began. -/

namespace Throttle

namespace World

/-- A call that nobody comes between finds the published edition and does what it does alone. -/
theorem run_whole {w : World} (hw : w.Consistent) {k : Nat} (r : Request) (t : UInt64)
    (hk : w.standing k = .idle) :
    ∃ w' hs answer, w.run (Move.whole k r t) = (w', hs) ∧ w'.Consistent ∧
      w.published.Serves r t answer w'.published ∧
      hs.filter Happening.isReturn = [.returned k r t answer] ∧
      ∀ j, w.standing j = .idle → w'.standing j = .idle := by
  set c := Call.load r.operation t w.published
  set w₁ := w.put k (.called r t)
  set w₂ := w₁.put k (.running r c)
  have h₁ : w.step (.call k r t) = (w₁, [.called k r t]) := by rw [step, hk]
  have hk₁ : w₁.standing k = .called r t := put_standing_self ..
  have h₂ : w₁.step (.load k) = (w₂, []) := by rw [step, hk₁]; rfl
  have hk₂ : w₂.standing k = .running r c := put_standing_self ..
  have hw₁ : w₁.Consistent := (Steps.called k r t hk).consistent hw
  have hw₂ : w₂.Consistent := (Steps.loaded k r t hk₁).consistent hw₁
  have hidle : ∀ j, w.standing j = .idle → (w₂.put k .idle).standing j = .idle := by
    intro j hj
    by_cases hjk : j = k
    · rw [hjk, put_standing_self]
    · rw [put_standing_of_ne _ _ hjk, put_standing_of_ne _ _ hjk, put_standing_of_ne _ _ hjk, hj]
  have hrun : w.run (Move.whole k r t) =
      ((w₂.step (.attempt k)).1, .called k r t :: (w₂.step (.attempt k)).2) := by
    simp [Move.whole, run, h₁, h₂]
  have step := hw₂.steps (.attempt k)
  rw [hrun]
  generalize (w₂.step (.attempt k)).1 = next at step ⊢
  generalize (w₂.step (.attempt k)).2 = seen at step ⊢
  have hnext := step.consistent hw₂
  cases step with
  | ignored _ unready => exact absurd ⟨r, c, hk₂⟩ unready
  | skipped _ _ _ work running refilled unpublished =>
    rw [hk₂] at running
    cases running
    refine ⟨_, _, _, rfl, hnext, .skip work refilled unpublished, ?_, hidle⟩
    rw [List.filter_cons_of_neg (by simp [Happening.isReturn]), List.filter_append,
      filter_reported]
    rfl
  | committed _ _ _ work a' running current refilled publishes =>
    rw [hk₂] at running
    cases running
    refine ⟨_, _, _, rfl, hnext, .commit work a' refilled publishes, ?_, hidle⟩
    rw [List.filter_cons_of_neg (by simp [Happening.isReturn]), List.filter_append,
      List.filter_cons_of_neg (by simp [Happening.isReturn]), filter_reported]
    rfl
  | lost _ _ _ running behind =>
    rw [hk₂] at running
    cases running
    exact absurd behind (lt_irrefl _)

theorem undisturbed_whole (calls : List (Nat × Request × UInt64)) :
    ∀ {w : World}, w.Consistent → (∀ k, w.standing k = .idle) →
      w.Undisturbed (calls.flatMap fun x => Move.whole x.1 x.2.1 x.2.2) := by
  induction calls with
  | nil =>
    intro w _ idle j _ k r c running
    rw [List.flatMap_nil, after, List.take_nil] at running
    cases (idle k).symm.trans running
  | cons x calls ih =>
    obtain ⟨k, r, t⟩ := x
    intro w hw idle j hj k' r' c running
    obtain ⟨w', hs, answer, hrun, hw', -, -, idle'⟩ := run_whole hw r t (idle k)
    rw [List.flatMap_cons] at hj running ⊢
    dsimp only at hj running ⊢
    generalize (calls.flatMap fun x => Move.whole x.1 x.2.1 x.2.2) = rest at ih hj running ⊢
    rcases j with _ | _ | _ | j
    · cases (idle k').symm.trans running
    · have hafter : w.after (Move.whole k r t ++ rest) 1 = w.put k (.called r t) := by
        simp [after, Move.whole, run, step, idle k]
      rw [hafter, put_standing, idle k'] at running
      split at running <;> cases running
    · have hafter : w.after (Move.whole k r t ++ rest) 2 =
          (w.put k (.called r t)).put k (.running r (.load r.operation t w.published)) := by
        simp only [after, Move.whole, List.cons_append, List.nil_append, List.take_succ_cons,
          List.take_zero, run, step, idle k, put_standing_self, List.append_nil]
        rfl
      rw [hafter, put_standing, put_standing, idle k'] at running
      rw [hafter]
      split at running
      · cases running; rfl
      · cases running
    · have hafter : w.after (Move.whole k r t ++ rest) (j + 3) = w'.after rest j := by
        have htake : (Move.whole k r t ++ rest).take (j + 3) = Move.whole k r t ++ rest.take j := rfl
        rw [after, htake, run_append, hrun]
        rfl
      rw [hafter] at running ⊢
      have hj : j ≤ rest.length := by simpa [Move.whole] using hj
      exact ih hw' (fun k => idle' k (idle k)) j hj k' r' c running

end World

namespace Served

variable {w : World} {ms : List Move}

theorem Of.idle_after {x : Served} (hw : w.Consistent) (h : x.Of w ms) :
    (w.after ms (x.returned + 1)).standing x.caller = .idle := by
  have step := hw.steps_after h.attempt
  have answered := h.answered
  generalize w.after ms (x.returned + 1) = next at step ⊢
  generalize ((w.after ms x.returned).step (.attempt x.caller)).2 = seen at step answered
  cases step with
  | ignored => cases answered
  | skipped => exact World.put_standing_self ..
  | committed => exact World.put_standing_self ..
  | lost =>
    rw [List.mem_singleton] at answered
    cases answered

theorem Of.point_caller {x : Served} (h : x.Of w ms) :
    (ms[x.point]?).map Move.caller = some x.caller := by
  rcases h.point with ⟨he, -⟩ | ⟨hs, -⟩
  · rw [he, h.attempt]; rfl
  · rcases hs.move with hm | hm <;> rw [hm] <;> rfl

theorem Of.point_ne {x y : Served} (hw : w.Consistent) (hx : x.Of w ms) (hy : y.Of w ms)
    (hlt : x.returned < y.returned) : x.point ≠ y.point := by
  intro heq
  have hle := hx.point_le
  rcases hy.point with ⟨he, -⟩ | ⟨hs, -⟩
  · omega
  -- the later call has its copy since this move, and its caller has not been idle since
  have hcaller : x.caller = y.caller := by
    have hxc := hx.point_caller
    rw [heq, hy.point_caller] at hxc
    exact (Option.some.inj hxc).symm
  have hidle := hx.idle_after hw
  rw [hcaller, hs.kept (x.returned + 1) (by omega) (by omega)] at hidle
  exact hy.began.busy y.returned hy.began.lt le_rfl hidle

/-- The calls can be put in the order of the moves at which they took effect. -/
theorem exists_order (hw : w.Consistent) {xs : List Served} (hof : ∀ x ∈ xs, x.Of w ms)
    (hxs : xs.Pairwise fun x y => x.returned < y.returned) :
    ∃ order : List Served, xs.Perm order ∧ order.Pairwise fun x y => x.point < y.point := by
  set order := xs.mergeSort fun x y => x.point ≤ y.point
  have hperm : order.Perm xs := List.mergeSort_perm _ _
  have hsorted : order.Pairwise fun x y => decide (x.point ≤ y.point) :=
    List.pairwise_mergeSort (fun x y z => by simp only [decide_eq_true_eq]; omega)
      (fun x y => by simp only [Bool.or_eq_true, decide_eq_true_eq]; omega) xs
  have hle : order.Pairwise fun x y => x.point ≤ y.point :=
    hsorted.imp fun h => of_decide_eq_true h
  have hne : xs.Pairwise fun x y => x.point ≠ y.point :=
    hxs.imp_of_mem fun hx hy hlt => (hof _ hx).point_ne hw (hof _ hy) hlt
  have hne : order.Pairwise fun x y => x.point ≠ y.point :=
    (hperm.pairwise_iff fun h => h.symm).mpr hne
  exact ⟨order, hperm.symm, (hle.and hne).imp fun h => lt_of_le_of_ne h.1 h.2⟩

end Served

namespace World

variable {w : World} {ms : List Move}

theorem published_eq {i j : Nat} (hij : i ≤ j)
    (h : ∀ l, i ≤ l → l < j → (w.after ms (l + 1)).published = (w.after ms l).published) :
    (w.after ms j).published = (w.after ms i).published := by
  induction j, hij using Nat.le_induction with
  | base => rfl
  | succ j hij ih =>
    rw [h j hij (Nat.lt_succ_self j)]
    exact ih fun l hi hl => h l hi (hl.trans (Nat.lt_succ_self j))

/-- Calls made one after another in the order of their points replay the rest of the run. -/
theorem replay (order : List Served) :
    ∀ i, i ≤ ms.length → (∀ x ∈ order, x.Effective w ms ∧ i ≤ x.point ∧ x.point < ms.length) →
      order.Pairwise (fun x y => x.point < y.point) →
      (∀ l, i ≤ l → l < ms.length → (w.after ms (l + 1)).published ≠ (w.after ms l).published →
        ∃ x ∈ order, x.point = l) →
      ∀ u : World, u.Consistent → (∀ k, u.standing k = .idle) →
        u.published = (w.after ms i).published →
        (u.run (order.flatMap Served.moves)).1.published = (w.after ms ms.length).published ∧
          (u.run (order.flatMap Served.moves)).2.filter Happening.isReturn =
            order.map Served.happening := by
  induction order with
  | nil =>
    intro i hi _ _ hcover u _ _ hpub
    refine ⟨?_, rfl⟩
    change u.published = _
    rw [hpub]
    refine (published_eq hi fun l hil hl => ?_).symm
    by_contra hne
    obtain ⟨x, hx, -⟩ := hcover l hil hl hne
    exact absurd hx (List.not_mem_nil)
  | cons x order ih =>
    intro i hi hof hsorted hcover u hu hidle hpub
    obtain ⟨⟨heff, hxi, hxl⟩, hof⟩ := List.forall_mem_cons.mp hof
    obtain ⟨hlt, hsorted⟩ := List.pairwise_cons.mp hsorted
    obtain ⟨u', hs, answer, hrun, hu', hserves, hreturn, hidle'⟩ :=
      run_whole hu x.request x.reading (hidle x.caller)
    -- no call takes effect before the first one, which therefore finds the edition it found then
    have hsame : (w.after ms x.point).published = u.published := by
      rw [hpub]
      refine published_eq hxi fun l hil hl => ?_
      by_contra hne
      obtain ⟨y, hy, rfl⟩ := hcover l hil (hl.trans hxl) hne
      rcases List.mem_cons.mp hy with rfl | hy
      · exact lt_irrefl _ hl
      · exact lt_asymm hl (hlt y hy)
    rw [← hsame] at hserves
    obtain ⟨hanswer, hpub'⟩ := hserves.unique heff
    obtain ⟨hfinal, hrest⟩ := ih (x.point + 1) hxl
      (fun y hy => ⟨(hof y hy).1, hlt y hy, (hof y hy).2.2⟩) hsorted
      (fun l hil hl hne => by
        obtain ⟨y, hy, hyl⟩ := hcover l (by omega) hl hne
        rcases List.mem_cons.mp hy with rfl | hy
        · omega
        · exact ⟨y, hy, hyl⟩)
      u' hu' (fun k => hidle' k (hidle k)) hpub'
    rw [List.flatMap_cons, Served.moves, run_append, hrun]
    refine ⟨hfinal, ?_⟩
    rw [List.filter_append, hreturn, hrest, hanswer]
    rfl

/-- A sequential order of the completed calls of a run. Each is a call of the run, in the spell
between its beginning and its return, and none comes before one that had returned when it began.
Made one after another they return what they returned, and leave the same edition published. -/
structure Linearization (w : World) (ms : List Move) (order : List Served) : Prop where
  complete : ((w.run ms).2.filter Happening.isReturn).Perm (order.map Served.happening)
  calls : ∀ x ∈ order, x.Of w ms
  ordered : order.Pairwise fun x y => x.point < y.point ∧ ¬y.returned < x.began
  answers : (w.run (order.flatMap Served.moves)).2.filter Happening.isReturn =
    order.map Served.happening
  published : (w.run (order.flatMap Served.moves)).1.published = (w.run ms).1.published

/-- Every run of any number of callers has a sequential order, and no call of it faults. A call in
progress never works on anything but a copy of the edition that it will compare against, so nothing
is left of an attempt that was lost. -/
theorem linearizable (s : Strategy) (hs : s ≠ .unshared) (c : Configuration) (now : UInt64)
    (ms : List Move) :
    (∃ order, Linearization (new s c now) ms order) ∧
      (∀ k fault, .faulted k fault ∉ ((new s c now).run ms).2) ∧
      ∀ i ≤ ms.length, ∀ k r call, ((new s c now).after ms i).standing k = .running r call →
        call.operation = r.operation ∧ call.work = call.previous.account := by
  have hw := new_consistent hs c now
  have idle : ∀ k, (new s c now).standing k = .idle := fun _ => rfl
  obtain ⟨xs, hxs, hof, hreturned, hpoints⟩ := @exists_history _ ms hw idle ms.length le_rfl
  obtain ⟨order, hperm, hsorted⟩ := Served.exists_order hw (fun x hx => (hof x hx).1) hreturned
  have hof : ∀ x ∈ order, x.Of (new s c now) ms ∧ x.Effective (new s c now) ms ∧
      x.returned < ms.length := fun x hx => hof x (hperm.mem_iff.mpr hx)
  obtain ⟨hfinal, hreplay⟩ := replay order 0 (Nat.zero_le _)
    (fun x hx => ⟨(hof x hx).2.1, Nat.zero_le _,
      (hof x hx).1.point_le.trans_lt (hof x hx).2.2⟩)
    hsorted
    (fun l _ hl hne => by
      obtain ⟨x, hx, hxl⟩ := hpoints l hl hne
      exact ⟨x, hperm.mem_iff.mp hx, hxl⟩)
    (new s c now) hw idle rfl
  refine ⟨⟨order, ?_, fun x hx => (hof x hx).1, ?_, hreplay, ?_⟩, ?_, ?_⟩
  · rw [← seen_length, hxs]
    exact hperm.map _
  · refine hsorted.imp_of_mem fun {x y} hx hy hlt => ⟨hlt, fun hreal => ?_⟩
    -- each call takes effect between its beginning and its return
    have := (hof x hx).1.began_lt
    have := (hof y hy).1.point_le
    omega
  · rw [hfinal, after_length]
  · exact run_not_faulted _ ms
  · intro i hi k r call running
    have follows := (hw.after i hi).follows running
    exact ⟨follows.operation, follows.work⟩

def lostRace : List Move :=
  [.call 0 (.consume ⟨5, by decide⟩) 0, .load 0, .call 1 (.consume ⟨7, by decide⟩) 0, .load 1,
    .attempt 1, .attempt 0, .attempt 0]

theorem linearizable_lostRace :
    Strategy.atomic ≠ .unshared ∧
      Happening.answers ((new .atomic (.single (.perSecond ⟨10, by decide⟩) (by decide)) 0).run
        lostRace).2 = [.consumed true, .consumed false] ∧
      ∃ order, Linearization (new .atomic (.single (.perSecond ⟨10, by decide⟩) (by decide)) 0)
        lostRace order :=
  ⟨by decide, by decide +kernel, (linearizable .atomic (by decide) _ 0 lostRace).1⟩

end World
end Throttle
