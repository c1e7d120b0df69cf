/-! Substrings. -/

namespace BlockScript.Text

def occursIn (needle : List Char) : List Char → Bool
  | [] => needle.isEmpty
  | c :: rest => needle.isPrefixOf (c :: rest) || occursIn needle rest

def contains (s part : String) : Bool :=
  occursIn part.toList s.toList

end BlockScript.Text
