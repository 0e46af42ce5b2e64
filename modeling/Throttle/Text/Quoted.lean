import Throttle.Text.Combining
import Throttle.Text.Digits
import Throttle.Text.Printable

/-! Text between quotes. What cannot be read off the page, or would join the character before it,
is written as an escape. -/

namespace Throttle.Text

def escape (c : Char) : String :=
  match c with
  | '\x00' => "\\0"
  | '\t' => "\\t"
  | '\n' => "\\n"
  | '\r' => "\\r"
  | '"' => "\\\""
  | '\\' => "\\\\"
  | c =>
    if isPrintable c && !isCombining c then String.singleton c
    else "\\u\x7b" ++ hex c.toNat ++ "\x7d"

def quote (text : String) : String := "\"" ++ String.join (text.toList.map escape) ++ "\""

end Throttle.Text
