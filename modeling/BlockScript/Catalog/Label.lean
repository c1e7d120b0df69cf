/-! Labels of blocks: text with named slots. Written out, a slot is its name in braces. -/

namespace BlockScript

inductive LabelPart where
  | text (s : String)
  | slot (name : String)
  deriving DecidableEq

abbrev Label := List LabelPart

namespace LabelPart

def chars : LabelPart → List Char
  | text s => s.toList
  | slot name => '\x7b' :: name.toList ++ ['\x7d']

/-- The part that holds `cs`, or nothing if there is no text. -/
def ofText : List Char → Label
  | [] => []
  | cs => [text (.ofList cs)]

end LabelPart

namespace Label

def toText (l : Label) : String :=
  .ofList (l.flatMap LabelPart.chars)

/-- Reads what follows the text `text` and, within a slot, the part `slot` of its name. A brace
that is never closed is text. -/
def parseFrom (text : List Char) (slot : Option (List Char)) : List Char → Label
  | [] => LabelPart.ofText (text ++ (slot.map ('\x7b' :: ·)).getD [])
  | c :: rest =>
    match slot with
    | none =>
      if c = '\x7b' then parseFrom text (some []) rest else parseFrom (text ++ [c]) none rest
    | some name =>
      if c = '\x7d' then
        LabelPart.ofText text ++ .slot (.ofList name) :: parseFrom [] none rest
      else parseFrom text (some (name ++ [c])) rest

def parse (s : String) : Label :=
  parseFrom [] none s.toList

end Label

end BlockScript
