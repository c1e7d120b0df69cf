import BlockScript.Script
import BlockScript.Text.Quoted

/-! What starts chains: every matching hat on every sprite becomes one. -/

namespace BlockScript

inductive Trigger where
  | flag
  | click (sprite : String)
  | broadcast (message : String)
  deriving DecidableEq

namespace Trigger

def describe : Trigger → String
  | flag => "FlagClicked"
  | click sprite => "Click(" ++ Text.quoted sprite ++ ")"
  | broadcast message => "Broadcast(" ++ Text.quoted message ++ ")"

/-- Messages match without regard to blanks around them and to the case of A to Z. -/
def matchesMessage (message : String) (hat : Block) : Bool :=
  match hat.literalText? "message" with
  | some m => Text.sameLetters (Text.trim m) (Text.trim message)
  | none => false

def starts (t : Trigger) (sprite : String) (hat : Block) : Bool :=
  match t, hat.kind with
  | flag, .whenFlagClicked => true
  | click id, .whenSpriteClicked => id == sprite
  | broadcast message, .whenReceived => matchesMessage message hat
  | _, _ => false

/-- The hats that the trigger starts, in sprite and then block order. -/
def hats (t : Trigger) (scripts : Table Script) : List (String × Script × Block) :=
  scripts.flatMap fun (sprite, script) =>
    (script.hats.filter (t.starts sprite)).map fun hat => (sprite, script, hat)

end Trigger

end BlockScript
