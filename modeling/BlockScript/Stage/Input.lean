import BlockScript.Block

/-! The mouse and the keys that are held down. -/

namespace BlockScript

/-- Keys are kept in lower case, each once and in order. -/
structure Input where
  mouse : Point
  keys : List String

namespace Input

def initial : Input := ⟨.origin, []⟩

def enterKey (key : String) : List String → List String
  | [] => [key]
  | k :: rest =>
    if key < k then key :: k :: rest
    else if key = k then k :: rest
    else k :: enterKey key rest

def press (i : Input) (key : String) : Input :=
  { i with keys := enterKey (Text.lower key) i.keys }

def release (i : Input) (key : String) : Input :=
  { i with keys := i.keys.filter (· != Text.lower key) }

/-- The name `any` asks for any key at all. -/
def isPressed (i : Input) (key : String) : Bool :=
  if key = "any" then !i.keys.isEmpty else i.keys.contains (Text.lower key)

end Input

end BlockScript
