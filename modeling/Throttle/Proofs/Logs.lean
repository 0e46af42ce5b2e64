import Throttle.Proofs.Histories

/-! The log of a run: the calls that published, in the order of their swaps. Each of them worked on
what the one before it had published, so what a single call keeps is kept along the whole log,
however the callers interleave. -/

namespace Throttle

/-- A call that published, with its answer and the edition that it left. -/
structure Commit where
  caller : Nat
  request : Request
  reading : UInt64
  answer : Answer
  edition : Edition

namespace Happening

/-- The calls that published. The answer that follows a swap is that of its call. -/
def commits : List Happening → List Commit
  | [] => []
  | .published k r t e :: hs =>
    ((answers hs).head?.map fun answer => ⟨k, r, t, answer, e⟩).toList ++ commits hs
  | _ :: hs => commits hs

theorem answers_reported (k : Nat) (es : List Event) (hs : List Happening) :
    answers (es.map (.reported k) ++ hs) = answers hs := by
  induction es with
  | nil => rfl
  | cons e es ih => exact ih

theorem commits_reported (k : Nat) (es : List Event) (hs : List Happening) :
    commits (es.map (.reported k) ++ hs) = commits hs := by
  induction es with
  | nil => rfl
  | cons e es ih => exact ih

end Happening

namespace Edition

/-- From edition `e` the calls of the log, one after another, lead to another one. Each publishes
what it makes of the edition that it finds. -/
inductive Chain : Edition → List Commit → Edition → Prop
  | nil (e : Edition) : Chain e [] e
  | cons {e e' : Edition} {x : Commit} {log : List Commit}
      (commits : e.account.Commits x.request x.reading x.answer x.edition.account)
      (number : x.edition.number = e.number + 1) (rest : Chain x.edition log e') :
      Chain e (x :: log) e'

namespace Chain

variable {e e' e'' : Edition} {log log' : List Commit}

theorem append (h : e.Chain log e') (h' : e'.Chain log' e'') : e.Chain (log ++ log') e'' := by
  induction h with
  | nil => exact h'
  | cons commits number _ ih => exact .cons commits number (ih h')

theorem split (h : e.Chain (log ++ log') e'') : ∃ e', e.Chain log e' ∧ e'.Chain log' e'' := by
  induction log generalizing e with
  | nil => exact ⟨e, .nil e, h⟩
  | cons x log ih =>
    cases h with
    | cons commits number rest =>
      obtain ⟨e', hlog, hlog'⟩ := ih rest
      exact ⟨e', .cons commits number hlog, hlog'⟩

theorem number_eq (h : e.Chain log e') : e'.number = e.number + log.length := by
  induction h with
  | nil => rfl
  | cons _ number _ ih => rw [ih, number, List.length_cons]; omega

theorem getLast? (h : e.Chain log e') : (e :: log.map Commit.edition).getLast? = some e' := by
  induction h with
  | nil => rfl
  | cons _ _ _ ih => rw [List.map_cons, List.getLast?_cons_cons]; exact ih

theorem exists_last {x : Commit} (h : e.Chain log e') (hx : log.getLast? = some x) :
    ∃ before e₁, log = before ++ [x] ∧ e.Chain before e₁ ∧
      e₁.account.Commits x.request x.reading x.answer x.edition.account ∧ x.edition = e' := by
  obtain ⟨before, rfl⟩ := List.getLast?_eq_some_iff.mp hx
  obtain ⟨e₁, hbefore, hlast⟩ := h.split
  cases hlast with
  | cons commits _ rest =>
    cases rest
    exact ⟨before, e₁, rfl, hbefore, commits, rfl⟩

theorem paired (h : e.Chain log e') (hp : e.account.Paired) : e'.account.Paired := by
  induction h with
  | nil => exact hp
  | cons commits _ _ ih => exact ih (commits.paired hp)

theorem compatible (h : e.Chain log e') (hp : e.account.Paired) :
    (e :: log.map Commit.edition).IsChain fun e e' =>
      e.account.configuration.Compatible e'.account.configuration := by
  induction h with
  | nil e => exact .singleton e
  | cons commits _ _ ih => exact .cons_cons (commits.compatible hp) (ih (commits.paired hp))

theorem count_eq (h : e.Chain log e') (hp : e.account.Paired) :
    e'.account.configuration.bandwidths.length = e.account.configuration.bandwidths.length := by
  induction h with
  | nil => rfl
  | cons commits _ _ ih =>
    rw [ih (commits.paired hp), (commits.compatible hp).length_eq]

theorem aligned {t : UInt64} (h : e.Chain log e') (hp : e.account.Paired) (ha : e.account.Aligned t) :
    e'.account.Aligned ((log.map Commit.reading).foldl max t) := by
  induction h generalizing t with
  | nil => exact ha
  | cons commits _ _ ih => exact ih (commits.paired hp) (commits.aligned hp ha)

theorem reachableBy {allowed : Account → Account → Prop} (h : e.Chain log e')
    (ok : (e :: log.map Commit.edition).IsChain fun e e' => allowed e.account e'.account)
    (he : e.account.ReachableBy allowed) : e'.account.ReachableBy allowed := by
  induction h with
  | nil => exact he
  | cons commits _ _ ih =>
    obtain ⟨first, ok⟩ := List.isChain_cons_cons.mp ok
    exact ih ok (he.commit commits first)

end Chain
end Edition

namespace World

open Happening

inductive Logs (w w' : World) : List Commit → Prop
  | still (published : w'.published = w.published) : Logs w w' []
  | swapped (x : Commit) (c : Call Answer) (running : w.standing x.caller = .running x.request c)
      (reading : c.reading = x.reading)
      (commits : w.published.account.Commits x.request x.reading x.answer x.edition.account)
      (number : x.edition.number = w.published.number + 1) (published : w'.published = x.edition) :
      Logs w w' [x]

variable {w w' : World} {m : Move} {hs : List Happening} {ms : List Move}

theorem Steps.logs (h : w.Steps m w' hs) : w.Logs w' (commits hs) := by
  cases h with
  | ignored => exact .still rfl
  | called => exact .still rfl
  | loaded => exact .still rfl
  | skipped k r c => rw [commits_reported]; exact .still rfl
  | committed k r c work a' running current refilled publishes =>
    rw [List.cons_append, commits, answers_reported, commits_reported]
    exact .swapped ⟨k, r, c.reading, _, w.published.succ a'⟩ c running rfl
      (.intro work refilled publishes rfl) rfl rfl
  | lost => exact .still rfl

theorem Steps.commits_append (h : w.Steps m w' hs) (rest : List Happening) :
    commits (hs ++ rest) = commits hs ++ commits rest := by
  cases h with
  | ignored => rfl
  | called => rfl
  | loaded => rfl
  | skipped k r c => rw [List.append_assoc, commits_reported, commits_reported]; rfl
  | committed k r c =>
    rw [List.cons_append, List.cons_append, List.append_assoc, commits, commits, answers_reported,
      answers_reported, commits_reported, commits_reported]
    rfl
  | lost => rfl

theorem Consistent.commits_append (hw : w.Consistent) (ms : List Move) (rest : List Happening) :
    commits ((w.run ms).2 ++ rest) = commits (w.run ms).2 ++ commits rest := by
  induction ms generalizing w with
  | nil => rfl
  | cons m ms ih =>
    have step := hw.steps m
    rw [run, List.append_assoc, step.commits_append, ih (step.consistent hw),
      step.commits_append, List.append_assoc]

theorem Logs.chain {log : List Commit} (h : w.Logs w' log) : w.published.Chain log w'.published := by
  cases h with
  | still published => rw [published]; exact .nil _
  | swapped x c running reading commits number published =>
    rw [published]
    exact .cons commits number (.nil _)

/-- However calls interleave, the log leads from what was published to what is. -/
theorem Consistent.chain (hw : w.Consistent) (ms : List Move) :
    w.published.Chain (commits (w.run ms).2) (w.run ms).1.published := by
  induction ms generalizing w with
  | nil => exact .nil _
  | cons m ms ih =>
    have step := hw.steps m
    rw [run, step.commits_append]
    exact step.logs.chain.append (ih (step.consistent hw))

/-- Every call of the log was begun by a move of the run. -/
theorem exists_call (hw : w.Consistent) (idle : ∀ k, w.standing k = .idle) :
    ∀ j, j ≤ ms.length → ∀ x ∈ commits (w.seen ms j), .call x.caller x.request x.reading ∈ ms := by
  intro j
  induction j with
  | zero => intro _ x hx; cases hx
  | succ j ih =>
    intro hj x hx
    have hm := List.getElem?_eq_getElem (l := ms) (i := j) (by omega)
    have hstep := (hw.steps_after hm).logs
    rw [seen_succ hm, seen, hw.commits_append, List.mem_append] at hx
    rcases hx with hx | hx
    · exact ih (by omega) x hx
    -- A call that the last move put into the log was in progress then, so an earlier move began it.
    generalize commits ((w.after ms j).step ms[j]).2 = log at hstep hx
    cases hstep with
    | still => cases hx
    | swapped y c running reading =>
      obtain rfl := List.mem_singleton.mp hx
      have h : w.Explained ms x.caller j ((w.after ms j).standing x.caller) :=
        explained hw idle x.caller j (by omega)
      rw [running] at h
      obtain ⟨b, -, began, -⟩ := h
      rw [← reading]
      exact List.mem_of_getElem? began.move

section

variable {s : Strategy} {c : Configuration} {now : UInt64}

/-- A bucket that is not shared, under calls that are not overtaken, publishes what a shared one
does. -/
theorem exists_shared (hs : s = .unshared → (new s c now).Undisturbed ms) :
    ∃ s' : Strategy, s' ≠ .unshared ∧ ∀ j ≤ ms.length,
      ((new s c now).after ms j).published = ((new s' c now).after ms j).published ∧
        (new s c now).seen ms j = (new s' c now).seen ms j := by
  by_cases hu : s = .unshared
  · refine ⟨.atomic, by decide, fun j hj => ?_⟩
    obtain ⟨hafter, hseen⟩ := (hs hu).run_strategy .atomic j hj
    rw [show new .atomic c now = { new s c now with strategy := .atomic } from rfl, hafter, hseen]
    exact ⟨rfl, rfl⟩
  · exact ⟨s, hu, fun j _ => ⟨rfl, rfl⟩⟩

theorem new_chain (hs : s = .unshared → (new s c now).Undisturbed ms) {j : Nat}
    (hj : j ≤ ms.length) :
    (Edition.first (.new c now)).Chain (commits ((new s c now).seen ms j))
      ((new s c now).after ms j).published := by
  obtain ⟨s', hs', hsame⟩ := exists_shared hs
  obtain ⟨hpublished, hseen⟩ := hsame j hj
  rw [hpublished, hseen]
  exact (new_consistent hs' c now).chain (ms.take j)

theorem exists_call_new (hs : s = .unshared → (new s c now).Undisturbed ms) {x : Commit}
    (hx : x ∈ commits ((new s c now).run ms).2) : .call x.caller x.request x.reading ∈ ms := by
  obtain ⟨s', hs', hsame⟩ := exists_shared hs
  obtain ⟨-, hseen⟩ := hsame ms.length le_rfl
  rw [← seen_length, hseen] at hx
  exact exists_call (new_consistent hs' c now) (fun _ => rfl) ms.length le_rfl x hx

end

end World
end Throttle
