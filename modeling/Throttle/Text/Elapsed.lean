import Throttle.Nanos
import Throttle.Text.Digits

/-! Spans of time as text: a decimal number and the largest unit, of s, ms, µs and ns, that the
span fills. The unit is chosen before the number is rounded. -/

namespace Throttle.Text

inductive Align where
  | left
  | right
  | center
deriving DecidableEq, Repr

structure Style where
  /-- Digits after the point; as many as it takes, if unset. -/
  precision : Option Nat := none
  /-- Writes a `+` in front. -/
  plus : Bool := false
  width : Option Nat := none
  align : Align := .left
  fill : Char := ' '
deriving DecidableEq, Repr

/-- The quotient rounded to the nearest integer, and to the even one of two. -/
def divRoundEven (n d : Nat) : Nat :=
  let q := n / d
  let twice := 2 * (n % d)
  if twice < d then q else if d < twice then q + 1 else q + q % 2

def trimZeros (text : String) : String :=
  String.ofList (text.toList.reverse.dropWhile (· == '0')).reverse

def tenTo (k : Nat) : Nat := Nat.pow 10 k

/-- `n` with its last `scale` digits after the point. -/
def decimal (precision : Option Nat) (n scale : Nat) : String :=
  match precision with
  | none =>
    let fraction := trimZeros (zeroPad scale (toString (n % tenTo scale)))
    if n % tenTo scale = 0 then toString (n / tenTo scale)
    else toString (n / tenTo scale) ++ "." ++ fraction
  | some p =>
    let kept := if scale ≤ p then n * tenTo (p - scale) else divRoundEven n (tenTo (scale - p))
    if p = 0 then toString kept
    else toString (kept / tenTo p) ++ "." ++ zeroPad p (toString (kept % tenTo p))

/-- The unit a span is written in: its name, and how many digits of nanoseconds make it up. -/
def unitOf (nanos : Nat) : String × Nat :=
  if second ≤ nanos then ("s", 9)
  else if millisecond ≤ nanos then ("ms", 6)
  else if 1000 ≤ nanos then ("µs", 3)
  else ("ns", 0)

def padded (style : Style) (text : String) : String :=
  let missing := style.width.getD 0 - text.length
  let before :=
    match style.align with
    | .left => 0
    | .right => missing
    | .center => missing / 2
  String.ofList (List.replicate before style.fill) ++ text ++
    String.ofList (List.replicate (missing - before) style.fill)

def elapsed (style : Style) (nanos : Nat) : String :=
  let (unit, scale) := unitOf nanos
  let sign := if style.plus then "+" else ""
  padded style (sign ++ decimal style.precision nanos scale ++ unit)

end Text

def Nanos.text (d : Nanos) (style : Text.Style := {}) : String :=
  match d.finite? with
  | none => "inf"
  | some nanos => Text.elapsed style nanos

end Throttle
