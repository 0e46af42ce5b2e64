import Throttle.Configuration

/-! Which configuration may take the place of another: one with as many limits, no position of
which carries two different identifiers. -/

namespace Throttle

inductive Incompatibility where
  | bandwidthCount (previous requested : Nat)
  | bandwidthIdentity (position : Nat) (previous requested : String)
deriving DecidableEq, Repr

namespace Bandwidth

/-- The two identifiers of a limit and its replacement, if both are set and differ. -/
def clash? (previous requested : Bandwidth) : Option (String × String) :=
  match previous.id, requested.id with
  | some p, some r => if p = r then none else some (p, r)
  | _, _ => none

def firstClash? (position : Nat) : List Bandwidth → List Bandwidth → Option Incompatibility
  | p :: ps, r :: rs =>
    match p.clash? r with
    | some (previous, requested) => some (.bandwidthIdentity position previous requested)
    | none => firstClash? (position + 1) ps rs
  | _, _ => none

end Bandwidth

namespace Configuration

/-- Why `requested` cannot take the place of `previous`; a different count comes first. -/
def incompatibility? (previous requested : Configuration) : Option Incompatibility :=
  if previous.bandwidths.length ≠ requested.bandwidths.length then
    some (.bandwidthCount previous.bandwidths.length requested.bandwidths.length)
  else Bandwidth.firstClash? 0 previous.bandwidths requested.bandwidths

def Compatible (previous requested : Configuration) : Prop :=
  previous.incompatibility? requested = none

instance (previous requested : Configuration) : Decidable (previous.Compatible requested) :=
  inferInstanceAs (Decidable (_ = _))

end Configuration

inductive Rejection where
  | invalid (error : ConfigurationError)
  | incompatible (error : Incompatibility)
deriving DecidableEq, Repr

def Rejection.between? (previous requested : List Bandwidth) : Option Rejection :=
  match Configuration.build previous with
  | .error e => some (.invalid e)
  | .ok p =>
    match Configuration.build requested with
    | .error e => some (.invalid e)
    | .ok r => (p.incompatibility? r).map .incompatible

end Throttle
