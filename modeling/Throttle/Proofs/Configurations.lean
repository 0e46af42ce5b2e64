import Throttle.Proofs.Commits

/-! What the checks on limits find. A list of limits is a configuration if there are any and nothing is
wrong with one of them, and a configuration can take the place of another if they have as many limits
and no position changes its name. A check that fails reports the first position at which it does. -/

namespace Throttle

/-- A search along the positions of a list ends at the first one where it finds anything. -/
theorem findSome?_zipIdx_eq_some_iff {α β : Type} {f : α × Nat → Option β} {xs : List α} {k : Nat}
    {y : β} : (xs.zipIdx k).findSome? f = some y ↔
      ∃ i x, xs[i]? = some x ∧ f (x, k + i) = some y ∧
        ∀ j < i, ∀ x', xs[j]? = some x' → f (x', k + j) = none := by
  induction xs generalizing k with
  | nil => simp
  | cons x xs ih =>
    -- it ends at the head or at a later position
    rw [List.zipIdx_cons, List.findSome?_cons, ← Nat.or_exists_add_one]
    simp only [Nat.forall_lt_succ_left, List.getElem?_cons_zero, List.getElem?_cons_succ]
    cases hx : f (x, k) with
    | some z => simp [hx]
    | none => simp [hx, ih, Nat.add_assoc, Nat.add_comm 1]

namespace Bandwidth

variable {b : Bandwidth} {bs : List Bandwidth} {i : Nat} {e : ConfigurationError}

/-- What can be wrong with the limit at position `i`: its period, or else the number of tokens that it
is set to start with. -/
inductive Faulty (b : Bandwidth) (i : Nat) : ConfigurationError → Prop
  | period (zero : b.period = 0) : Faulty b i (.zeroRefillPeriod i)
  | initial (n : UInt64) (nonzero : b.period ≠ 0) (given : b.initial = some n)
      (above : b.capacity.val < n) : Faulty b i (.initialTokensExceedCapacity i n b.capacity.val)

theorem initialTokens_eq (b : Bandwidth) : b.initialTokens = b.initial.getD b.capacity.val := by
  cases h : b.initial with
  | none => exact initialTokens_of_none h
  | some n => exact initialTokens_of_some h

theorem valid_iff :
    b.Valid ↔ b.period ≠ 0 ∧ ∀ n, b.initial = some n → n ≤ b.capacity.val := by
  rw [Valid]
  refine and_congr_right fun _ => ?_
  cases h : b.initial with
  | none => simp [initialTokens_of_none h]
  | some n => simp [initialTokens_of_some h]

theorem error?_eq_some_iff : b.error? i = some e ↔ b.Faulty i e := by
  unfold error?
  constructor
  · intro h
    split at h
    · next zero =>
      cases h
      exact .period zero
    · next nonzero =>
      split at h
      · next above =>
        cases h
        cases given : b.initial with
        | none =>
          rw [initialTokens_of_none given] at above
          exact absurd above (UInt64.lt_irrefl _)
        | some n =>
          rw [initialTokens_of_some given] at above ⊢
          exact .initial n nonzero given above
      · cases h
  · intro h
    cases h with
    | period zero => exact if_pos zero
    | initial n nonzero given above =>
      rw [if_neg nonzero, initialTokens_of_some given, if_pos above]

theorem firstError?_eq (bs : List Bandwidth) (k : Nat) :
    firstError? k bs = (bs.zipIdx k).findSome? fun q => q.1.error? q.2 := by
  induction bs generalizing k with
  | nil => rfl
  | cons b bs ih =>
    rw [firstError?, List.zipIdx_cons, List.findSome?_cons, ih]
    dsimp only
    cases b.error? k with
    | none => rfl
    | some e => rfl

def faults (bs : List Bandwidth) : Set Nat := {i | ∃ b e, bs[i]? = some b ∧ b.Faulty i e}

theorem firstError?_eq_some_iff : firstError? 0 bs = some e ↔
    ∃ i b, IsLeast (faults bs) i ∧ bs[i]? = some b ∧ b.Faulty i e := by
  simp only [firstError?_eq, findSome?_zipIdx_eq_some_iff, Nat.zero_add, error?_eq_some_iff]
  refine exists_congr fun i => exists_congr fun b => ?_
  constructor
  · rintro ⟨hb, faulty, before⟩
    refine ⟨⟨⟨b, e, hb, faulty⟩, ?_⟩, hb, faulty⟩
    rintro j ⟨b', e', hb', faulty'⟩
    by_contra hj
    have none := before j (not_le.mp hj) b' hb'
    rw [error?_eq_some_iff.mpr faulty'] at none
    cases none
  · rintro ⟨⟨-, least⟩, hb, faulty⟩
    refine ⟨hb, faulty, fun j hj b' hb' => ?_⟩
    cases he : b'.error? j with
    | none => rfl
    | some e' =>
      have faulty' := error?_eq_some_iff.mp he
      exact absurd (least ⟨b', e', hb', faulty'⟩) (not_le.mpr hj)

end Bandwidth

theorem Slot.toInt_new {b : Bandwidth} (valid : b.Valid) (now : UInt64) :
    (Slot.new b now).tokens.toInt = min (b.initial.getD b.capacity.val).toNat (2 ^ 63 - 1) := by
  have hinitial := UInt64.le_iff_toNat_le.mp valid.2
  have hceiling := b.capacity.toInt_balance
  rw [← b.initialTokens_eq, new, Balance.toInt_min, toInt_ofIntClamp, Bandwidth.ceiling]
  omega

namespace Configuration

variable {bs : List Bandwidth} {c : Configuration}

theorem build_eq_ok_iff : build bs = .ok c ↔ c.bandwidths = bs := by
  unfold build
  constructor
  · intro h
    split at h
    · cases h
    · split at h
      · cases h
      · cases h
        rfl
  · rintro rfl
    rw [dif_neg c.nonempty]
    split
    · next e he =>
      rw [Bandwidth.firstError?_eq_none_iff.mpr c.valid] at he
      cases he
    · rfl

theorem build_eq_error_iff {e : ConfigurationError} : build bs = .error e ↔
    bs = [] ∧ e = .noBandwidths ∨ Bandwidth.firstError? 0 bs = some e := by
  unfold build
  split
  · next empty =>
    subst empty
    simp [Bandwidth.firstError?, eq_comm]
  · next nonempty =>
    split
    · next e' he => simp [nonempty, he]
    · next valid => simp [nonempty, valid]

structure BuildsFrom (bs : List Bandwidth) : Prop where
  succeeds_iff : (∃ c, build bs = .ok c) ↔
    bs ≠ [] ∧ ∀ b ∈ bs, b.period ≠ 0 ∧ ∀ n, b.initial = some n → n ≤ b.capacity.val
  keeps : ∀ c, build bs = .ok c → c.bandwidths = bs
  /-- The fault of the first limit that has one is reported. -/
  fails_iff : ∀ e, build bs = .error e ↔
    bs = [] ∧ e = .noBandwidths ∨
      ∃ i b, IsLeast (Bandwidth.faults bs) i ∧ bs[i]? = some b ∧ b.Faulty i e
  starts : ∀ c now, build bs = .ok c → (Ledger.new c.bandwidths now).slots.length = bs.length ∧
    ∀ (i : Nat) (b : Bandwidth), bs[i]? = some b →
      ∃ s : Slot, (Ledger.new c.bandwidths now).slots[i]? = some s ∧
        s.tokens.toInt = min (b.initial.getD b.capacity.val).toNat (2 ^ 63 - 1) ∧
        0 ≤ s.tokens.toInt ∧ s.tokens.toInt ≤ min b.capacity.val.toNat (2 ^ 63 - 1)

/-- Building succeeds exactly for limits that are all valid, keeps them as they are, and reports the
first fault of any others. -/
theorem build_checks (bs : List Bandwidth) : BuildsFrom bs where
  succeeds_iff := by
    simp only [build_eq_ok_iff, ← Bandwidth.valid_iff]
    constructor
    · rintro ⟨c, rfl⟩
      exact ⟨c.nonempty, c.valid⟩
    · rintro ⟨nonempty, valid⟩
      exact ⟨⟨bs, nonempty, valid⟩, rfl⟩
  keeps := fun _ => build_eq_ok_iff.mp
  fails_iff := fun e => by
    rw [build_eq_error_iff, Bandwidth.firstError?_eq_some_iff]
  starts := fun c now built => by
    obtain rfl := build_eq_ok_iff.mp built
    refine ⟨List.length_map _, fun i b hb => ?_⟩
    have valid := c.valid b (List.mem_of_getElem? hb)
    refine ⟨Slot.new b now, by rw [Ledger.new, List.getElem?_map, hb]; rfl, ?_⟩
    have hinitial := UInt64.le_iff_toNat_le.mp valid.2
    rw [Slot.toInt_new valid, ← b.initialTokens_eq]
    omega

end Configuration

namespace Bandwidth

variable {p r : Bandwidth} {x y : String}

theorem clash?_eq_some_iff :
    p.clash? r = some (x, y) ↔ p.id = some x ∧ r.id = some y ∧ x ≠ y := by
  unfold clash?
  cases p.id with
  | none => simp
  | some x' =>
    cases r.id with
    | none => simp
    | some y' =>
      by_cases h : x' = y'
      · simp only [h, if_true, reduceCtorEq, Option.some.injEq, false_iff, not_and, not_not]
        rintro rfl rfl
        rfl
      · simp only [h, if_false, Option.some.injEq, Prod.mk.injEq]
        constructor
        · rintro ⟨rfl, rfl⟩
          exact ⟨rfl, rfl, h⟩
        · rintro ⟨rfl, rfl, -⟩
          exact ⟨rfl, rfl⟩

theorem firstClash?_eq (ps rs : List Bandwidth) (k : Nat) :
    firstClash? k ps rs = ((ps.zip rs).zipIdx k).findSome? fun q =>
      (q.1.1.clash? q.1.2).map fun ids => .bandwidthIdentity q.2 ids.1 ids.2 := by
  induction ps generalizing rs k with
  | nil => rfl
  | cons p ps ih =>
    cases rs with
    | nil => rfl
    | cons r rs =>
      rw [firstClash?, List.zip_cons_cons, List.zipIdx_cons, List.findSome?_cons, ih]
      dsimp only
      cases p.clash? r with
      | none => rfl
      | some ids => rfl

theorem clash?_swap (p r : Bandwidth) : r.clash? p = (p.clash? r).map Prod.swap := by
  unfold clash?
  cases p.id with
  | none => cases r.id <;> rfl
  | some x =>
    cases r.id with
    | none => rfl
    | some y =>
      by_cases h : x = y
      · simp [h]
      · simp [h, Ne.symm h]

end Bandwidth

def Incompatibility.swapped : Incompatibility → Incompatibility
  | .bandwidthCount previous requested => .bandwidthCount requested previous
  | .bandwidthIdentity position previous requested => .bandwidthIdentity position requested previous

theorem Bandwidth.firstClash?_swap (ps rs : List Bandwidth) (k : Nat) :
    firstClash? k rs ps = (firstClash? k ps rs).map .swapped := by
  induction ps generalizing rs k with
  | nil => cases rs <;> rfl
  | cons p ps ih =>
    cases rs with
    | nil => rfl
    | cons r rs =>
      rw [firstClash?, firstClash?, ih, clash?_swap]
      cases p.clash? r with
      | none => rfl
      | some ids => rfl

namespace Configuration

variable {p q m : Configuration}

/-- At position `i` the configurations carry these identifiers, which differ. -/
def ClashesAt (p q : Configuration) (i : Nat) (x y : String) : Prop :=
  ∃ b c, p.bandwidths[i]? = some b ∧ q.bandwidths[i]? = some c ∧ b.id = some x ∧ c.id = some y ∧
    x ≠ y

def clashes (p q : Configuration) : Set Nat := {i | ∃ x y, p.ClashesAt q i x y}

variable {p q m : Configuration} {e : Incompatibility}

theorem firstClash?_eq_some_iff : Bandwidth.firstClash? 0 p.bandwidths q.bandwidths = some e ↔
    ∃ i x y, IsLeast (p.clashes q) i ∧ p.ClashesAt q i x y ∧ e = .bandwidthIdentity i x y := by
  simp only [Bandwidth.firstClash?_eq, findSome?_zipIdx_eq_some_iff, Nat.zero_add,
    Option.map_eq_some_iff, Option.map_eq_none_iff, List.getElem?_zip_eq_some, Prod.exists, Prod.forall]
  constructor
  · rintro ⟨i, b, c, ⟨hb, hc⟩, ⟨x, y, hclash, rfl⟩, before⟩
    obtain ⟨hx, hy, hne⟩ := Bandwidth.clash?_eq_some_iff.mp hclash
    have clash : p.ClashesAt q i x y := ⟨b, c, hb, hc, hx, hy, hne⟩
    refine ⟨i, x, y, ⟨⟨x, y, clash⟩, ?_⟩, clash, rfl⟩
    rintro j ⟨x', y', b', c', hb', hc', hx', hy', hne'⟩
    by_contra hj
    have none := before j (not_le.mp hj) b' c' ⟨hb', hc'⟩
    rw [Bandwidth.clash?_eq_some_iff.mpr ⟨hx', hy', hne'⟩] at none
    cases none
  · rintro ⟨i, x, y, ⟨-, least⟩, ⟨b, c, hb, hc, hids⟩, rfl⟩
    refine ⟨i, b, c, ⟨hb, hc⟩, ⟨x, y, Bandwidth.clash?_eq_some_iff.mpr hids, rfl⟩, ?_⟩
    rintro j hj b' c' ⟨hb', hc'⟩
    cases hclash : b'.clash? c' with
    | none => rfl
    | some ids =>
      have clash : p.ClashesAt q j ids.1 ids.2 :=
        ⟨b', c', hb', hc', Bandwidth.clash?_eq_some_iff.mp hclash⟩
      exact absurd (least ⟨_, _, clash⟩) (not_le.mpr hj)

theorem incompatibility?_eq_some_iff : p.incompatibility? q = some e ↔
    p.bandwidths.length ≠ q.bandwidths.length ∧
        e = .bandwidthCount p.bandwidths.length q.bandwidths.length ∨
      p.bandwidths.length = q.bandwidths.length ∧
        ∃ i x y, IsLeast (p.clashes q) i ∧ p.ClashesAt q i x y ∧ e = .bandwidthIdentity i x y := by
  rw [incompatibility?, ← firstClash?_eq_some_iff]
  split
  · next hlength => simp [hlength, eq_comm]
  · next hlength => simp [not_not.mp hlength]

theorem compatible_iff : p.Compatible q ↔
    p.bandwidths.length = q.bandwidths.length ∧ ∀ i x y, ¬p.ClashesAt q i x y := by
  constructor
  · intro h
    refine ⟨h.length_eq, fun i x y clash => ?_⟩
    -- if any position clashed, the first one would have been found
    have hsome : ∃ j, j ∈ p.clashes q := ⟨i, x, y, clash⟩
    classical
    have hleast : IsLeast (p.clashes q) (Nat.find hsome) :=
      ⟨Nat.find_spec hsome, fun _ hj => Nat.find_min' hsome hj⟩
    obtain ⟨x', y', first⟩ := hleast.1
    have hfound := incompatibility?_eq_some_iff.mpr (.inr ⟨h.length_eq, _, x', y', hleast, first, rfl⟩)
    exact absurd (h.symm.trans hfound) nofun
  · rintro ⟨hlength, hnone⟩
    cases h : p.incompatibility? q with
    | none => exact h
    | some e =>
      rcases incompatibility?_eq_some_iff.mp h with ⟨hne, -⟩ | ⟨-, i, x, y, -, clash, -⟩
      · exact absurd hlength hne
      · exact absurd clash (hnone i x y)

theorem incompatibility?_swap (p q : Configuration) :
    q.incompatibility? p = (p.incompatibility? q).map .swapped := by
  rw [incompatibility?, incompatibility?, Bandwidth.firstClash?_swap p.bandwidths]
  by_cases hlength : p.bandwidths.length = q.bandwidths.length
  · rw [if_neg (not_not.mpr hlength.symm), if_neg (not_not.mpr hlength)]
  · rw [if_pos (Ne.symm hlength), if_pos hlength]
    rfl

structure ChecksAgainst (p q : Configuration) : Prop where
  compatible_iff : p.Compatible q ↔
    p.bandwidths.length = q.bandwidths.length ∧ ∀ i x y, ¬p.ClashesAt q i x y
  /-- Different counts are reported first, and else the first position with two identifiers. -/
  incompatible_iff : ∀ e, p.incompatibility? q = some e ↔
    p.bandwidths.length ≠ q.bandwidths.length ∧
        e = .bandwidthCount p.bandwidths.length q.bandwidths.length ∨
      p.bandwidths.length = q.bandwidths.length ∧
        ∃ i x y, IsLeast (p.clashes q) i ∧ p.ClashesAt q i x y ∧ e = .bandwidthIdentity i x y
  reflexive : p.Compatible p
  symmetric : p.Compatible q ↔ q.Compatible p
  swapped : q.incompatibility? p = (p.incompatibility? q).map .swapped
  /-- A position without an identifier would let two names pass that clash with each other. -/
  transitive : ∀ m : Configuration, (∀ b ∈ m.bandwidths, b.id ≠ none) → p.Compatible m →
    m.Compatible q → p.Compatible q

/-- The check finds exactly what stands between the two configurations, and finds it from either side.
Where every position of the middle one carries an identifier, compatibility is passed on. -/
theorem compatibility_checks (p q : Configuration) : ChecksAgainst p q where
  compatible_iff := compatible_iff
  incompatible_iff := fun _ => incompatibility?_eq_some_iff
  reflexive := .refl p
  symmetric := by
    rw [Compatible, Compatible, incompatibility?_swap p, Option.map_eq_none_iff]
  swapped := incompatibility?_swap p q
  transitive := by
    intro m named hpm hmq
    obtain ⟨hlength, agree⟩ := compatible_iff.mp hpm
    obtain ⟨hlength', agree'⟩ := compatible_iff.mp hmq
    refine compatible_iff.mpr ⟨hlength.trans hlength', ?_⟩
    rintro i x y ⟨b, c, hb, hc, hx, hy, hne⟩
    obtain ⟨hi, -⟩ := List.getElem?_eq_some_iff.mp hb
    have hd : m.bandwidths[i]? = some m.bandwidths[i] := List.getElem?_eq_getElem (hlength ▸ hi)
    obtain ⟨z, hz⟩ := Option.ne_none_iff_exists'.mp (named _ (List.getElem_mem _))
    -- the identifier in the middle is the same as either of the others
    have hxz : x = z := by
      by_contra h
      exact agree i x z ⟨b, _, hb, hd, hx, hz, h⟩
    have hzy : z = y := by
      by_contra h
      exact agree' i z y ⟨_, c, hd, hc, hz, hy, h⟩
    exact hne (hxz.trans hzy)

end Configuration
end Throttle
