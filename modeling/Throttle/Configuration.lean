import Throttle.Bandwidth

/-! Configurations: non-empty lists of limits that are all valid. `Configuration.build` accepts
exactly these lists and names the first fault of any other. -/

namespace Throttle

inductive ConfigurationError where
  | noBandwidths
  | zeroRefillPeriod (position : Nat)
  | initialTokensExceedCapacity (position : Nat) (initial capacity : UInt64)
deriving DecidableEq, Repr

def ConfigurationError.message : ConfigurationError → String
  | .noBandwidths => "at least one bandwidth is required"
  | .zeroRefillPeriod position => s!"bandwidth at position {position} has a zero refill period"
  | .initialTokensExceedCapacity position initial capacity =>
    s!"bandwidth at position {position} starts with {initial} tokens, above its capacity of {capacity}"

namespace Bandwidth

/-- What is wrong with the limit at this position; a period of zero comes first. -/
def error? (b : Bandwidth) (position : Nat) : Option ConfigurationError :=
  if b.period = 0 then some (.zeroRefillPeriod position)
  else if b.capacity.val < b.initialTokens then
    some (.initialTokensExceedCapacity position b.initialTokens b.capacity.val)
  else none

theorem error?_eq_none_iff {b : Bandwidth} {position : Nat} : b.error? position = none ↔ b.Valid := by
  unfold error? Valid
  split
  · simp_all
  · split <;> simp_all [UInt64.not_le, UInt64.not_lt]

def firstError? (position : Nat) : List Bandwidth → Option ConfigurationError
  | [] => none
  | b :: bs =>
    match b.error? position with
    | some e => some e
    | none => firstError? (position + 1) bs

theorem firstError?_eq_none_iff {bs : List Bandwidth} {position : Nat} :
    firstError? position bs = none ↔ ∀ b ∈ bs, b.Valid := by
  induction bs generalizing position with
  | nil => simp [firstError?]
  | cons b bs ih =>
    rw [firstError?, List.forall_mem_cons, ← @error?_eq_none_iff b position, ← @ih (position + 1)]
    split <;> simp_all

end Bandwidth

structure Configuration where
  bandwidths : List Bandwidth
  nonempty : bandwidths ≠ []
  valid : ∀ b ∈ bandwidths, b.Valid
deriving DecidableEq

namespace Configuration

def build (bs : List Bandwidth) : Except ConfigurationError Configuration :=
  if nonempty : bs = [] then .error .noBandwidths
  else
    match valid : Bandwidth.firstError? 0 bs with
    | some e => .error e
    | none => .ok ⟨bs, nonempty, Bandwidth.firstError?_eq_none_iff.mp valid⟩

end Configuration
end Throttle
