/-! Texts made of named fields and lists, on one line or with a line for each part. -/

namespace Throttle.Text

inductive Layout where
  | atom (text : String)
  | record (name : String) (fields : List (String × Layout))
  | list (items : List Layout)

namespace Layout

mutual

def inline : Layout → String
  | .atom text => text
  | .record name fields => name ++ " \x7b " ++ ", ".intercalate (inlineFields fields) ++ " \x7d"
  | .list items => "[" ++ ", ".intercalate (inlineItems items) ++ "]"

def inlineFields : List (String × Layout) → List String
  | [] => []
  | (name, value) :: rest => (name ++ ": " ++ value.inline) :: inlineFields rest

def inlineItems : List Layout → List String
  | [] => []
  | item :: rest => item.inline :: inlineItems rest

end

/-- Moves each line of a text that ends with its last line's end to the right, blank ones too. -/
def indent (text : String) : String :=
  String.join ((text.splitOn "\n").dropLast.map fun line => "    " ++ line ++ "\n")

mutual

def tall : Layout → String
  | .atom text => text
  | .record name fields => name ++ " \x7b\n" ++ indent (tallFields fields) ++ "\x7d"
  | .list [] => "[]"
  | .list items => "[\n" ++ indent (tallItems items) ++ "]"

def tallFields : List (String × Layout) → String
  | [] => ""
  | (name, value) :: rest => name ++ ": " ++ value.tall ++ ",\n" ++ tallFields rest

def tallItems : List Layout → String
  | [] => ""
  | item :: rest => item.tall ++ ",\n" ++ tallItems rest

end

end Layout
end Throttle.Text
