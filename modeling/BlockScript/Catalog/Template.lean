import BlockScript.Catalog.Kind
import BlockScript.Catalog.Label
import BlockScript.Number.Function
import BlockScript.Table
import BlockScript.Value

/-! What the editor knows about a kind of block: its label and its parameters with the
values they start with. -/

namespace BlockScript

inductive ParamKind where
  | number | text | variableDropdown | scriptDropdown | costumeDropdown | soundDropdown
  | color | dropdown
  deriving DecidableEq

def ParamKind.name : ParamKind → String
  | number => "number"
  | text => "text"
  | variableDropdown => "variable_dropdown"
  | scriptDropdown => "script_dropdown"
  | costumeDropdown => "costume_dropdown"
  | soundDropdown => "sound_dropdown"
  | color => "color"
  | dropdown => "dropdown"

/-- A parameter that is not `bound` starts without a value. -/
structure ParamSpec where
  name : String
  kind : ParamKind
  default : Value
  options : List String
  bound : Bool

namespace ParamSpec

def number (name : String) (default : Float) : ParamSpec :=
  ⟨name, .number, .number default, [], true⟩

def blankNumber (name : String) : ParamSpec :=
  ⟨name, .number, .text "", [], true⟩

def text (name default : String) : ParamSpec :=
  ⟨name, .text, .text default, [], true⟩

def picker (name : String) (kind : ParamKind) (default : String) : ParamSpec :=
  ⟨name, kind, .text default, [], true⟩

def dropdown (name default : String) (options : List String) : ParamSpec :=
  ⟨name, .dropdown, .text default, options, true⟩

def unbound (p : ParamSpec) : ParamSpec :=
  { p with bound := false }

end ParamSpec

def keyNames : List String :=
  ["space", "up arrow", "down arrow", "right arrow", "left arrow", "any",
   "a", "b", "c", "d", "e", "f", "g", "h", "i", "j", "k", "l", "m", "n", "o", "p", "q", "r",
   "s", "t", "u", "v", "w", "x", "y", "z", "0", "1", "2", "3", "4", "5", "6", "7", "8", "9"]

namespace BlockKind

def category (k : BlockKind) : Category :=
  match k with
  | .moveSteps | .turnRight | .turnLeft | .goTo | .goToXY | .pointTowards | .changeX | .setX
  | .changeY | .setY | .bounce | .xPosition | .yPosition | .direction => .motion
  | .sayFor | .say | .thinkFor | .think | .switchCostume | .nextCostume | .changeSize | .setSize
  | .showSprite | .hideSprite | .costumeNumber | .size => .looks
  | .playSound | .playSoundUntilDone | .stopSounds | .changeVolume | .setVolume | .volume => .sound
  | .whenFlagClicked | .whenSpriteClicked | .broadcast | .whenReceived => .events
  | .wait | .repeatTimes | .forever | .ifThen | .waitUntil => .control
  | .ask | .touching | .keyPressed | .answer | .mouseX | .mouseY => .sensing
  | .add | .subtract | .multiply | .divide | .pickRandom | .greater | .less | .equals | .both
  | .either | .negation | .join | .letterOf | .length | .contains | .remainder | .round
  | .function => .operators
  | .setVariable | .changeVariable | .readVariable => .«variables»
  | .defineScript | .runScript => .myBlocks
  | .eraseAll | .penDown | .penUp | .setPenColor | .setPenSize => .pen
  | .createObject => .threeD

def label : BlockKind → Label
  | .moveSteps => [.text "move ", .slot "steps", .text " steps"]
  | .turnRight => [.text "turn ↻ ", .slot "degrees", .text " degrees"]
  | .turnLeft => [.text "turn ↺ ", .slot "degrees", .text " degrees"]
  | .goTo => [.text "go to ", .slot "target"]
  | .goToXY => [.text "go to x: ", .slot "x", .text " y: ", .slot "y"]
  | .pointTowards => [.text "point towards ", .slot "target"]
  | .changeX => [.text "change x by ", .slot "dx"]
  | .setX => [.text "set x to ", .slot "x"]
  | .changeY => [.text "change y by ", .slot "dy"]
  | .setY => [.text "set y to ", .slot "y"]
  | .bounce => [.text "if on edge, bounce"]
  | .xPosition => [.text "x position"]
  | .yPosition => [.text "y position"]
  | .direction => [.text "direction"]
  | .sayFor => [.text "say ", .slot "message", .text " for ", .slot "seconds", .text " seconds"]
  | .say => [.text "say ", .slot "message"]
  | .thinkFor => [.text "think ", .slot "message", .text " for ", .slot "seconds", .text " seconds"]
  | .think => [.text "think ", .slot "message"]
  | .switchCostume => [.text "switch costume to ", .slot "costume"]
  | .nextCostume => [.text "next costume"]
  | .changeSize => [.text "change size by ", .slot "size"]
  | .setSize => [.text "set size to ", .slot "size", .text "%"]
  | .showSprite => [.text "show"]
  | .hideSprite => [.text "hide"]
  | .costumeNumber => [.text "costume #"]
  | .size => [.text "size"]
  | .playSound => [.text "play sound ", .slot "sound"]
  | .playSoundUntilDone => [.text "play sound ", .slot "sound", .text " until done"]
  | .stopSounds => [.text "stop all sounds"]
  | .changeVolume => [.text "change volume by ", .slot "volume"]
  | .setVolume => [.text "set volume to ", .slot "volume", .text "%"]
  | .volume => [.text "volume"]
  | .whenFlagClicked => [.text "when 🏁 clicked"]
  | .whenSpriteClicked => [.text "when this sprite clicked"]
  | .broadcast => [.text "broadcast ", .slot "message"]
  | .whenReceived => [.text "when I receive ", .slot "message"]
  | .wait => [.text "wait ", .slot "seconds", .text " seconds"]
  | .repeatTimes => [.text "repeat ", .slot "times"]
  | .forever => [.text "forever"]
  | .ifThen => [.text "if ", .slot "condition", .text " then"]
  | .waitUntil => [.text "wait until ", .slot "condition"]
  | .ask => [.text "ask ", .slot "question", .text " and wait"]
  | .touching => [.text "touching ", .slot "target", .text "?"]
  | .keyPressed => [.text "key ", .slot "key", .text " pressed?"]
  | .answer => [.text "answer"]
  | .mouseX => [.text "mouse x"]
  | .mouseY => [.text "mouse y"]
  | .add => [.slot "NUM1", .text " + ", .slot "NUM2"]
  | .subtract => [.slot "NUM1", .text " - ", .slot "NUM2"]
  | .multiply => [.slot "NUM1", .text " * ", .slot "NUM2"]
  | .divide => [.slot "NUM1", .text " / ", .slot "NUM2"]
  | .pickRandom => [.text "pick random from ", .slot "FROM", .text " to ", .slot "TO"]
  | .greater => [.slot "OPERAND1", .text " > ", .slot "OPERAND2"]
  | .less => [.slot "OPERAND1", .text " < ", .slot "OPERAND2"]
  | .equals => [.slot "OPERAND1", .text " = ", .slot "OPERAND2"]
  | .both => [.slot "OPERAND1", .text " and ", .slot "OPERAND2"]
  | .either => [.slot "OPERAND1", .text " or ", .slot "OPERAND2"]
  | .negation => [.text "not ", .slot "OPERAND"]
  | .join => [.text "join ", .slot "STRING1", .text " ", .slot "STRING2"]
  | .letterOf => [.text "letter ", .slot "LETTER", .text " of ", .slot "STRING"]
  | .length => [.text "length of ", .slot "STRING"]
  | .contains => [.slot "STRING1", .text " contains ", .slot "STRING2", .text "?"]
  | .remainder => [.slot "NUM1", .text " mod ", .slot "NUM2"]
  | .round => [.text "round ", .slot "NUM"]
  | .function => [.slot "OP", .text " of ", .slot "NUM"]
  | .setVariable => [.text "set ", .slot "variable", .text " to ", .slot "value"]
  | .changeVariable => [.text "change ", .slot "variable", .text " by ", .slot "value"]
  | .readVariable => [.slot "variable"]
  | .defineScript => [.text "create script called ", .slot "name"]
  | .runScript => [.text "run script ", .slot "name"]
  | .eraseAll => [.text "erase all"]
  | .penDown => [.text "pen down"]
  | .penUp => [.text "pen up"]
  | .setPenColor => [.text "set pen color to ", .slot "color"]
  | .setPenSize => [.text "set pen size to ", .slot "size"]
  | .createObject => [.text "Make ", .slot "object"]

open ParamSpec in
def params : BlockKind → List ParamSpec
  | .moveSteps => [number "steps" 10]
  | .turnRight => [number "degrees" 15]
  | .turnLeft => [number "degrees" 15]
  | .goTo => [dropdown "target" "_random_" ["_random_", "_mouse_"]]
  | .goToXY => [number "x" 0, number "y" 0]
  | .pointTowards => [dropdown "target" "_mouse_" ["_mouse_"]]
  | .changeX => [number "dx" 10]
  | .setX => [number "x" 0]
  | .changeY => [number "dy" 10]
  | .setY => [number "y" 0]
  | .sayFor => [text "message" "Hello!", number "seconds" 2]
  | .say => [text "message" "Hello!"]
  | .thinkFor => [text "message" "Hmm...", number "seconds" 2]
  | .think => [text "message" "Hmm..."]
  | .switchCostume => [picker "costume" .costumeDropdown "🐱"]
  | .changeSize => [number "size" 10]
  | .setSize => [number "size" 100]
  | .playSound => [picker "sound" .soundDropdown "Laser"]
  | .playSoundUntilDone => [picker "sound" .soundDropdown "Laser"]
  | .changeVolume => [number "volume" (-10)]
  | .setVolume => [number "volume" 100]
  | .broadcast => [text "message" "message1"]
  | .whenReceived => [text "message" "message1"]
  | .wait => [number "seconds" 1]
  | .repeatTimes => [number "times" 10]
  | .ifThen => [unbound (text "condition" "")]
  | .waitUntil => [unbound (text "condition" "")]
  | .ask => [text "question" "What's your name?"]
  | .touching => [dropdown "target" "_mouse_" ["_mouse_", "_edge_"]]
  | .keyPressed => [dropdown "key" "space" keyNames]
  | .add => [blankNumber "NUM1", blankNumber "NUM2"]
  | .subtract => [blankNumber "NUM1", blankNumber "NUM2"]
  | .multiply => [blankNumber "NUM1", blankNumber "NUM2"]
  | .divide => [blankNumber "NUM1", blankNumber "NUM2"]
  | .pickRandom => [number "FROM" 1, number "TO" 10]
  | .greater => [text "OPERAND1" "", text "OPERAND2" "50"]
  | .less => [text "OPERAND1" "", text "OPERAND2" "50"]
  | .equals => [text "OPERAND1" "", text "OPERAND2" "50"]
  | .both => [text "OPERAND1" "", text "OPERAND2" ""]
  | .either => [text "OPERAND1" "", text "OPERAND2" ""]
  | .negation => [text "OPERAND" ""]
  | .join => [text "STRING1" "hello", text "STRING2" "world"]
  | .letterOf => [number "LETTER" 1, text "STRING" "world"]
  | .length => [text "STRING" "apple"]
  | .contains => [text "STRING1" "apple", text "STRING2" "a"]
  | .remainder => [blankNumber "NUM1", blankNumber "NUM2"]
  | .round => [blankNumber "NUM"]
  | .function =>
    [dropdown "OP" "abs" (Number.Function.all.map (·.name)), ⟨"NUM", .number, .text "10", [], true⟩]
  | .setVariable => [unbound (picker "variable" .variableDropdown ""), text "value" "0"]
  | .changeVariable => [unbound (picker "variable" .variableDropdown ""), number "value" 1]
  | .readVariable => [unbound (picker "variable" .variableDropdown "")]
  | .defineScript => [text "name" "script1"]
  | .runScript => [unbound (picker "name" .scriptDropdown "")]
  | .setPenColor => [picker "color" .color "#ffc700"]
  | .setPenSize => [number "size" 10]
  | .createObject => [text "object" "a floor with grass texture"]
  | _ => []

def param? (k : BlockKind) (name : String) : Option ParamSpec :=
  k.params.find? (·.name == name)

/-- The bindings that a new block starts with. -/
def defaults (k : BlockKind) : Table Value :=
  (k.params.filter (·.bound)).map fun p => (p.name, p.default)

end BlockKind

end BlockScript
