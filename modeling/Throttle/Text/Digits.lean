/-! Numbers as digits. -/

namespace Throttle.Text

def hex (n : Nat) : String := String.ofList (Nat.toDigits 16 n)

def zeroPad (width : Nat) (text : String) : String :=
  String.ofList (List.replicate (width - text.length) '0') ++ text

/-- The exact word of a float: sixteen hexadecimal digits. -/
def floatBits (x : Float) : String := zeroPad 16 (hex x.toBits.toNat)

end Throttle.Text
