import Throttle.Proofs.Timeline

/-! The completed calls of a run. Each has the moves at which it began, took effect and returned:
a call that publishes takes effect with its swap, any other where it came by the copy that it
decided on. What a call answers and publishes is what it makes of the edition published there. -/

namespace Throttle

def Happening.isReturn : Happening → Bool
  | .returned .. => true
  | _ => false

def Standing.call? : Standing → Option (Request × UInt64)
  | .idle => none
  | .called r t => some (r, t)
  | .running r c => some (r, c.reading)

theorem Standing.call?_eq_none {s : Standing} : s.call? = none ↔ s = .idle := by
  cases s <;> simp [call?]

def Move.caller : Move → Nat
  | .call k .. => k
  | .load k => k
  | .attempt k => k

/-- What one call, alone, answers and leaves published when it finds edition `e`. -/
inductive Edition.Serves (e : Edition) (r : Request) (reading : UInt64) : Answer → Edition → Prop
  | skip (work : Account) (refilled : e.account.refill reading = .ok work)
      (unpublished : (r.operation work).publish = none) :
      Serves e r reading (r.operation work).answer e
  | commit (work a' : Account) (refilled : e.account.refill reading = .ok work)
      (publishes : (r.operation work).publish = some a') :
      Serves e r reading (r.operation work).answer (e.succ a')

theorem Edition.Serves.exists_work {e e' : Edition} {r : Request} {reading : UInt64}
    {answer : Answer} (h : e.Serves r reading answer e') :
    ∃ work, e.account.refill reading = .ok work ∧ answer = (r.operation work).answer ∧
      e' = ((r.operation work).publish.map e.succ).getD e := by
  rcases h with ⟨work, refilled, unpublished⟩ | ⟨work, a', refilled, publishes⟩
  · exact ⟨work, refilled, rfl, by simp [unpublished]⟩
  · exact ⟨work, refilled, rfl, by simp [publishes]⟩

theorem Edition.Serves.unique {e e₁ e₂ : Edition} {r : Request} {reading : UInt64}
    {answer₁ answer₂ : Answer} (h₁ : e.Serves r reading answer₁ e₁)
    (h₂ : e.Serves r reading answer₂ e₂) : answer₁ = answer₂ ∧ e₁ = e₂ := by
  obtain ⟨work₁, refilled₁, rfl, rfl⟩ := h₁.exists_work
  obtain ⟨work₂, refilled₂, rfl, rfl⟩ := h₂.exists_work
  obtain rfl : work₁ = work₂ := Except.ok.inj (refilled₁.symm.trans refilled₂)
  exact ⟨rfl, rfl⟩

namespace World

variable {w : World} {ms : List Move} {k i j : Nat} {r : Request} {t : UInt64}

/-- Caller `k` began a call with move `b` and is still busy with it after `i` moves. -/
structure Began (w : World) (ms : List Move) (k : Nat) (r : Request) (t : UInt64)
    (b i : Nat) : Prop where
  move : ms[b]? = some (.call k r t)
  lt : b < i
  idle : (w.after ms b).standing k = .idle
  busy : ∀ l, b < l → l ≤ i → (w.after ms l).standing k ≠ .idle

/-- Move `p`, a load or a lost swap, gave caller `k` the copy that it still has after `i` moves. -/
structure Supplies (w : World) (ms : List Move) (k p i : Nat) : Prop where
  move : ms[p]? = some (.load k) ∨ ms[p]? = some (.attempt k)
  lt : p < i
  changed : (w.after ms p).standing k ≠ (w.after ms i).standing k
  kept : ∀ l, p < l → l ≤ i → (w.after ms l).standing k = (w.after ms i).standing k

theorem Began.succ {b : Nat} (h : w.Began ms k r t b i)
    (busy : (w.after ms (i + 1)).standing k ≠ .idle) : w.Began ms k r t b (i + 1) := by
  refine ⟨h.move, h.lt.trans (Nat.lt_succ_self i), h.idle, fun l hb hl => ?_⟩
  rcases Nat.lt_or_eq_of_le hl with hl | rfl
  · exact h.busy l hb (Nat.lt_succ_iff.mp hl)
  · exact busy

theorem Supplies.succ {p : Nat} (h : w.Supplies ms k p i)
    (same : (w.after ms (i + 1)).standing k = (w.after ms i).standing k) :
    w.Supplies ms k p (i + 1) := by
  refine ⟨h.move, h.lt.trans (Nat.lt_succ_self i), by rw [same]; exact h.changed,
    fun l hp hl => ?_⟩
  rcases Nat.lt_or_eq_of_le hl with hl | rfl
  · rw [same]; exact h.kept l hp (Nat.lt_succ_iff.mp hl)
  · rfl

theorem Supplies.unique {p q : Nat} (h : w.Supplies ms k p i) (h' : w.Supplies ms k q i) : p = q := by
  rcases Nat.lt_trichotomy p q with hlt | heq | hgt
  · exact absurd (h.kept q hlt h'.lt.le) h'.changed
  · exact heq
  · exact absurd (h'.kept p hgt h.lt.le) h.changed

def Explained (w : World) (ms : List Move) (k i : Nat) : Standing → Prop
  | .idle => True
  | .called r t => ∃ b, w.Began ms k r t b i
  | .running r c => ∃ b p, w.Began ms k r c.reading b i ∧ w.Supplies ms k p i ∧ b < p ∧
      c.previous = (w.after ms p).published ∧
      (w.after ms (p + 1)).published = (w.after ms p).published

theorem Explained.succ (h : w.Explained ms k i ((w.after ms i).standing k))
    (same : (w.after ms (i + 1)).standing k = (w.after ms i).standing k) :
    w.Explained ms k (i + 1) ((w.after ms (i + 1)).standing k) := by
  have hbusy := same
  rw [same]
  cases hst : (w.after ms i).standing k with
  | idle => trivial
  | called r t =>
    rw [hst] at h hbusy
    obtain ⟨b, hb⟩ := h
    exact ⟨b, hb.succ (by rw [hbusy]; exact nofun)⟩
  | running r c =>
    rw [hst] at h hbusy
    obtain ⟨b, p, hb, hp, hlt, hprev, hpub⟩ := h
    exact ⟨b, p, hb.succ (by rw [hbusy]; exact nofun), hp.succ same, hlt, hprev, hpub⟩

inductive Shifts (w : World) (m : Move) (k : Nat) (w' : World) : Prop
  | same (standing : w'.standing k = w.standing k)
  | ended (standing : w'.standing k = .idle)
  | called (r : Request) (t : UInt64) (move : m = .call k r t) (idle : w.standing k = .idle)
      (standing : w'.standing k = .called r t)
  | loaded (r : Request) (t : UInt64) (move : m = .load k) (before : w.standing k = .called r t)
      (published : w'.published = w.published)
      (standing : w'.standing k = .running r (.load r.operation t w.published))
  | lost (r : Request) (c : Call Answer) (move : m = .attempt k)
      (before : w.standing k = .running r c) (behind : c.previous.number < w.published.number)
      (published : w'.published = w.published)
      (standing : w'.standing k = .running r (c.restart r w.published))

theorem put_standing_self (w : World) (k : Nat) (x : Standing) : (w.put k x).standing k = x :=
  if_pos rfl

theorem put_standing_of_ne (w : World) {k j : Nat} (x : Standing) (h : j ≠ k) :
    (w.put k x).standing j = w.standing j := if_neg h

/-- A move only shifts the caller that makes it. -/
theorem Steps.shifts {w w' : World} {m : Move} {hs : List Happening} (h : w.Steps m w' hs)
    (k : Nat) : w.Shifts m k w' := by
  cases h with
  | ignored => exact .same rfl
  | called j r t idle =>
    by_cases hk : k = j
    · subst hk
      exact .called r t rfl idle (put_standing_self ..)
    · exact .same (put_standing_of_ne _ _ hk)
  | loaded j r t called =>
    by_cases hk : k = j
    · subst hk
      exact .loaded r t rfl called rfl (put_standing_self ..)
    · exact .same (put_standing_of_ne _ _ hk)
  | skipped j =>
    by_cases hk : k = j
    · subst hk
      exact .ended (put_standing_self ..)
    · exact .same (put_standing_of_ne _ _ hk)
  | committed j =>
    by_cases hk : k = j
    · subst hk
      exact .ended (put_standing_self ..)
    · exact .same (put_standing_of_ne _ _ hk)
  | lost j r c running behind =>
    by_cases hk : k = j
    · subst hk
      exact .lost r c rfl running behind rfl (put_standing_self ..)
    · exact .same (put_standing_of_ne _ _ hk)

/-- A move that gives a caller another copy supplies it. -/
theorem Supplies.of_move {m : Move} (hm : ms[i]? = some m) (hk : m = .load k ∨ m = .attempt k)
    (changed : (w.after ms i).standing k ≠ (w.after ms (i + 1)).standing k) :
    w.Supplies ms k i (i + 1) := by
  refine ⟨?_, Nat.lt_succ_self i, changed, fun l hlo hhi => ?_⟩
  · rcases hk with rfl | rfl
    · exact .inl hm
    · exact .inr hm
  · rw [show l = i + 1 by omega]

/-- Where everybody starts idle, every standing in the course of a run has its moves. -/
theorem explained (hw : w.Consistent) (idle : ∀ k, w.standing k = .idle) (k : Nat) :
    ∀ i, i ≤ ms.length → w.Explained ms k i ((w.after ms i).standing k) := by
  intro i
  induction i with
  | zero =>
    intro _
    rw [after_zero, idle k]
    trivial
  | succ i ih =>
    intro hi
    have ih := ih (by omega)
    have hm := List.getElem?_eq_getElem (l := ms) (i := i) (by omega)
    cases (hw.steps_after hm).shifts k with
    | same standing => exact ih.succ standing
    | ended standing => rw [standing]; trivial
    | called r t move idle standing =>
      rw [standing]
      refine ⟨i, hm.trans (by rw [move]), Nat.lt_succ_self i, idle, fun l hlo hhi => ?_⟩
      rw [show l = i + 1 by omega, standing]
      exact nofun
    | loaded r t move before published standing =>
      rw [before] at ih
      rw [standing]
      obtain ⟨b, hb⟩ := ih
      refine ⟨b, i, hb.succ (by rw [standing]; exact nofun), ?_, hb.lt, rfl, published⟩
      exact .of_move hm (.inl move) (by rw [before, standing]; exact nofun)
    | lost r c move before behind published standing =>
      rw [before] at ih
      rw [standing]
      obtain ⟨b, p, hb, -, -, -⟩ := ih
      refine ⟨b, i, hb.succ (by rw [standing]; exact nofun), ?_, hb.lt, rfl, published⟩
      refine .of_move hm (.inr move) ?_
      rw [before, standing]
      intro heq
      have hprev : c.previous = (w.after ms i).published := by
        injection heq with _ hc
        rw [hc]; rfl
      rw [hprev] at behind
      exact lt_irrefl _ behind

end World

/-- A completed call, with the numbers of the moves at which it began, took effect and returned. -/
structure Served where
  caller : Nat
  request : Request
  reading : UInt64
  answer : Answer
  began : Nat
  point : Nat
  returned : Nat

namespace Served

def happening (x : Served) : Happening := .returned x.caller x.request x.reading x.answer

/-- The moves of the same call when nobody comes between. -/
def moves (x : Served) : List Move := Move.whole x.caller x.request x.reading

/-- The call is one of this run: a busy spell of its caller, from the move that read the clock to
the attempt that returned. It takes effect at that attempt if its swap took place there, and else
where it came by the copy that it decided on. -/
structure Of (x : Served) (w : World) (ms : List Move) : Prop where
  began : w.Began ms x.caller x.request x.reading x.began x.returned
  attempt : ms[x.returned]? = some (.attempt x.caller)
  answered : x.happening ∈ ((w.after ms x.returned).step (.attempt x.caller)).2
  began_lt : x.began < x.point
  point : x.point = x.returned ∧
      (w.after ms (x.returned + 1)).published ≠ (w.after ms x.returned).published ∨
    w.Supplies ms x.caller x.point x.returned ∧
      (w.after ms (x.returned + 1)).published = (w.after ms x.returned).published

def Effective (x : Served) (w : World) (ms : List Move) : Prop :=
  (w.after ms x.point).published.Serves x.request x.reading x.answer
    (w.after ms (x.point + 1)).published

variable {w : World} {ms : List Move}

theorem Of.point_le {x : Served} (h : x.Of w ms) : x.point ≤ x.returned := by
  rcases h.point with ⟨he, -⟩ | ⟨hs, -⟩
  · exact he.le
  · exact hs.lt.le

end Served

namespace World

variable {w : World} {ms : List Move} {i : Nat} {m : Move}

theorem filter_reported (k : Nat) (events : List Event) :
    (events.map (Happening.reported k)).filter Happening.isReturn = [] := by
  simp [List.filter_eq_nil_iff, Happening.isReturn]

/-- A move of a run that returns nothing publishes nothing; one that returns completes a call, and
takes effect here if it publishes. -/
theorem exists_served (hw : w.Consistent) (idle : ∀ k, w.standing k = .idle)
    (hm : ms[i]? = some m) :
    (((w.after ms i).step m).2.filter Happening.isReturn = [] ∧
      (w.after ms (i + 1)).published = (w.after ms i).published) ∨
    ∃ x : Served, x.Of w ms ∧ x.Effective w ms ∧ x.returned = i ∧
      ((w.after ms i).step m).2.filter Happening.isReturn = [x.happening] ∧
      ((w.after ms (i + 1)).published ≠ (w.after ms i).published → x.point = i) := by
  obtain ⟨hi, -⟩ := List.getElem?_eq_some_iff.mp hm
  have step := hw.steps_after hm
  generalize hnext : w.after ms (i + 1) = next at step ⊢
  generalize hseen : ((w.after ms i).step m).2 = seen at step ⊢
  cases step with
  | ignored => exact .inl ⟨rfl, rfl⟩
  | called => exact .inl ⟨rfl, rfl⟩
  | loaded => exact .inl ⟨rfl, rfl⟩
  | lost => exact .inl ⟨rfl, rfl⟩
  | skipped k r c work running refilled unpublished =>
    have he := explained hw idle k i hi.le
    rw [running] at he
    obtain ⟨b, p, hb, hp, hlt, hprev, hpub⟩ := he
    refine .inr ⟨⟨k, r, c.reading, (r.operation work).answer, b, p, i⟩,
      ⟨hb, hm, ?_, hlt, .inr ⟨hp, ?_⟩⟩, ?_, rfl, ?_, fun h => absurd rfl h⟩
    · rw [hseen]; exact List.mem_append_right _ (List.mem_singleton_self _)
    · rw [hnext]; rfl
    · rw [hprev] at refilled
      change (w.after ms p).published.Serves r c.reading _ (w.after ms (p + 1)).published
      rw [hpub]
      exact .skip work refilled unpublished
    · rw [List.filter_append, filter_reported]; rfl
  | committed k r c work a' running current refilled publishes =>
    have he := explained hw idle k i hi.le
    rw [running] at he
    obtain ⟨b, p, hb, hp, hlt, hprev, hpub⟩ := he
    refine .inr ⟨⟨k, r, c.reading, (r.operation work).answer, b, i, i⟩,
      ⟨hb, hm, ?_, hb.lt, .inl ⟨rfl, ?_⟩⟩, ?_, rfl, ?_, fun _ => rfl⟩
    · rw [hseen]; exact List.mem_append_right _ (List.mem_singleton_self _)
    · rw [hnext]
      intro heq
      exact Nat.succ_ne_self _ (congrArg Edition.number heq)
    · change (w.after ms i).published.Serves r c.reading _ (w.after ms (i + 1)).published
      rw [hnext]
      exact .commit work a' refilled publishes
    · rw [List.filter_append, List.filter_cons_of_neg (by simp [Happening.isReturn]),
        filter_reported]
      rfl

/-- All completed calls of the first `n` moves, in the order of their returns. -/
theorem exists_history (hw : w.Consistent) (idle : ∀ k, w.standing k = .idle) :
    ∀ n, n ≤ ms.length → ∃ xs : List Served,
      (w.seen ms n).filter Happening.isReturn = xs.map Served.happening ∧
      (∀ x ∈ xs, x.Of w ms ∧ x.Effective w ms ∧ x.returned < n) ∧
      xs.Pairwise (fun x y => x.returned < y.returned) ∧
      ∀ i, i < n → (w.after ms (i + 1)).published ≠ (w.after ms i).published →
        ∃ x ∈ xs, x.point = i := by
  intro n
  induction n with
  | zero => intro _; exact ⟨[], rfl, by simp, .nil, by simp⟩
  | succ n ih =>
    intro hn
    have hm := List.getElem?_eq_getElem (l := ms) (i := n) (by omega)
    obtain ⟨xs, hxs, hof, hsorted, hpoints⟩ := ih (by omega)
    rcases exists_served hw idle hm with ⟨hnone, hsame⟩ | ⟨x, hx, heff, hret, hone, hpoint⟩
    · refine ⟨xs, ?_, ?_, hsorted, ?_⟩
      · rw [seen_succ hm, List.filter_append, hnone, List.append_nil, hxs]
      · intro x hx
        obtain ⟨h1, h2, h3⟩ := hof x hx
        exact ⟨h1, h2, h3.trans (Nat.lt_succ_self n)⟩
      · intro i hi hne
        rcases Nat.lt_succ_iff_lt_or_eq.mp hi with hi | rfl
        · exact hpoints i hi hne
        · exact absurd hsame hne
    · refine ⟨xs ++ [x], ?_, ?_, ?_, ?_⟩
      · rw [seen_succ hm, List.filter_append, hone, hxs, List.map_append, List.map_singleton]
      · intro y hy
        rcases List.mem_append.mp hy with hy | hy
        · obtain ⟨h1, h2, h3⟩ := hof y hy
          exact ⟨h1, h2, h3.trans (Nat.lt_succ_self n)⟩
        · rw [List.mem_singleton.mp hy]
          exact ⟨hx, heff, by omega⟩
      · rw [List.pairwise_append]
        refine ⟨hsorted, List.pairwise_singleton _ _, fun y hy z hz => ?_⟩
        rw [List.mem_singleton.mp hz, hret]
        exact (hof y hy).2.2
      · intro i hi hne
        rcases Nat.lt_succ_iff_lt_or_eq.mp hi with hi | rfl
        · obtain ⟨y, hy, hyp⟩ := hpoints i hi hne
          exact ⟨y, List.mem_append_left _ hy, hyp⟩
        · exact ⟨x, List.mem_append_right _ (List.mem_singleton_self x), hpoint hne⟩

/-! Calls that are not overtaken are the same calls under any strategy. -/

section

variable {k p : Nat} {r : Request} {t : UInt64} (undisturbed : w.Undisturbed ms) (s : Strategy)
include undisturbed

theorem Undisturbed.standing_eq {j : Nat} (hj : j ≤ ms.length) :
    (({ w with strategy := s } : World).after ms j).standing = (w.after ms j).standing := by
  rw [(undisturbed.run_strategy s j hj).1]

theorem Undisturbed.published_eq {j : Nat} (hj : j ≤ ms.length) :
    (({ w with strategy := s } : World).after ms j).published = (w.after ms j).published := by
  rw [(undisturbed.run_strategy s j hj).1]

theorem Undisturbed.began (h : w.Began ms k r t p i) (hi : i ≤ ms.length) :
    ({ w with strategy := s } : World).Began ms k r t p i where
  move := h.move
  lt := h.lt
  idle := by rw [undisturbed.standing_eq s (h.lt.le.trans hi), h.idle]
  busy := fun l hp hl => by
    rw [undisturbed.standing_eq s (hl.trans hi)]
    exact h.busy l hp hl

theorem Undisturbed.supplies (h : w.Supplies ms k p i) (hi : i ≤ ms.length) :
    ({ w with strategy := s } : World).Supplies ms k p i where
  move := h.move
  lt := h.lt
  changed := by
    rw [undisturbed.standing_eq s (h.lt.le.trans hi), undisturbed.standing_eq s hi]
    exact h.changed
  kept := fun l hp hl => by
    rw [undisturbed.standing_eq s (hl.trans hi), undisturbed.standing_eq s hi]
    exact h.kept l hp hl

theorem Undisturbed.served {x : Served} (h : x.Of w ms) :
    x.Of ({ w with strategy := s } : World) ms := by
  obtain ⟨hlast, -⟩ := List.getElem?_eq_some_iff.mp h.attempt
  refine ⟨undisturbed.began s h.began hlast.le, h.attempt, ?_, h.began_lt, ?_⟩
  · rw [(undisturbed.run_strategy s _ hlast.le).1, undisturbed.step_eq s hlast.le]
    exact h.answered
  · rw [undisturbed.published_eq s hlast.le, undisturbed.published_eq s hlast]
    exact h.point.imp_right (.imp_left fun hs => undisturbed.supplies s hs hlast.le)

end

end World
end Throttle
