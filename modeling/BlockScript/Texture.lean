import BlockScript.Stage.Basic
import BlockScript.Text.Search

/-! Requests for textured objects, read off a prompt in plain words. -/

namespace BlockScript

inductive TextureError where
  | unavailable
  | emptyResponse
  | backend (detail : String)
  deriving DecidableEq

def TextureError.message : TextureError → String
  | unavailable => "texture generation is not available"
  | emptyResponse => "the generator returned no image"
  | backend detail => "texture backend failed: " ++ detail

/-- A generator gives the same answer to every request, after `delay` milliseconds. -/
structure Generator where
  delay : Nat
  answer : Except TextureError String

def Generator.none : Generator := ⟨0, .error .unavailable⟩

namespace Material

def keywords : List String := ["with", "of", "made of"]

/-- What follows `word` in `cs`, without regard to the case of the letters A to Z. -/
def dropWord : List Char → List Char → Option (List Char)
  | [], cs => some cs
  | _ :: _, [] => none
  | w :: word, c :: cs => if w.toLower = c.toLower then dropWord word cs else none

/-- The rest of the line after `word` and one blank. -/
def afterWord (word : String) (cs : List Char) : Option (List Char) :=
  match dropWord word.toList cs with
  | some (c :: rest) => if Text.isBlank c then some (rest.takeWhile (· != '\n')) else none
  | _ => none

/-- The rest of the line after the first keyword. -/
def find? : List Char → Option (List Char)
  | [] => none
  | c :: cs =>
    match keywords.findSome? (afterWord · (c :: cs)) with
    | some found => some found
    | none => find? cs

/-- The material that a prompt names, which is the whole prompt if nothing introduces one. -/
def ofPrompt (prompt : String) : String :=
  match find? prompt.toList with
  | some (c :: cs) => .ofList (c :: cs)
  | _ => prompt

end Material

structure ObjectRequest where
  kind : ObjectKind
  prompt : String
  texturePrompt : String

/-- One generator may serve every request. -/
instance : Coe Generator (ObjectRequest → Generator) where
  coe g := fun _ => g

def ObjectRequest.ofPrompt (prompt : String) : ObjectRequest where
  kind := if Text.contains (Text.lower prompt) "floor" then .floor else .box
  prompt := prompt
  texturePrompt := "A seamless, tileable texture of " ++ Material.ofPrompt prompt

end BlockScript
