import BlockScript.Number.Remainder
import BlockScript.Stage.Basic
import BlockScript.Text.Search

/-! Evaluation of parameters. An expression sees one sprite, the variables and the input, and
reporters nested too deeply read as empty. -/

namespace BlockScript

/-- What an expression can see. `pick` chooses an integer between two bounds. -/
structure Scene where
  sprite : Option Sprite
  valueOf : String → Value
  input : Input
  pick : Int → Int → Int

def Stage.scene (s : Stage) (sprite : String) (pick : Int → Int → Int) : Scene :=
  ⟨s.sprite? sprite, s.valueOf, s.input, pick⟩

namespace Scene

def ofSprite (s : Scene) (read : Sprite → Float) : Value :=
  match s.sprite with
  | some sprite => .number (read sprite)
  | none => .empty

def touching (s : Scene) (target : String) : Bool :=
  match s.sprite with
  | none => false
  | some sprite =>
    if target = "_mouse_" then sprite.position.distance s.input.mouse ≤ sprite.radius
    else if target = "_edge_" then
      sprite.position.x.abs + sprite.radius ≥ stageWidth / 2
        || sprite.position.y.abs + sprite.radius ≥ stageHeight / 2
    else false

end Scene

/-- Division by zero is positive infinity. -/
def quotient (x y : Float) : Float :=
  if y == 0 then Number.infinity else x / y

/-- The letter at a place counted from one, or nothing. -/
def letterAt (place : Float) (s : String) : Value :=
  if place ≥ 1 && Number.isIntegral place then
    match s.toList[(Number.truncate place).toNat - 1]? with
    | some c => .text (.ofList [c])
    | none => .empty
  else .empty

/-- A random integer between two numbers, in either order. -/
def randomBetween (pick : Int → Int → Int) (x y : Float) : Float :=
  let a := Number.toWord (Number.roundHalfUp x)
  let b := Number.toWord (Number.roundHalfUp y)
  Float.ofInt (pick (min a b) (max a b))

/-- The value of a reporter whose parameters have the values `arg`. -/
def Scene.report (s : Scene) (kind : BlockKind) (arg : String → Value) : Value :=
  let num := fun name => (arg name).toNumber
  let text := fun name => (arg name).toText
  let operands := (arg "OPERAND1").order (arg "OPERAND2")
  match kind with
  | .xPosition => s.ofSprite (·.position.x)
  | .yPosition => s.ofSprite (·.position.y)
  | .direction => s.ofSprite (·.rotation)
  | .costumeNumber => s.ofSprite (Float.ofNat ·.costumeNumber)
  | .size => s.ofSprite (·.size)
  | .volume => s.ofSprite (·.volume)
  | .answer => s.valueOf answerName
  | .mouseX => .number s.input.mouse.x
  | .mouseY => .number s.input.mouse.y
  | .keyPressed => .ofBool (s.input.isPressed (text "key"))
  | .touching => .ofBool (s.touching (text "target"))
  | .readVariable => s.valueOf (text "variable")
  | .add => .number (num "NUM1" + num "NUM2")
  | .subtract => .number (num "NUM1" - num "NUM2")
  | .multiply => .number (num "NUM1" * num "NUM2")
  | .divide => .number (quotient (num "NUM1") (num "NUM2"))
  | .remainder => .number (Number.remainder (num "NUM1") (num "NUM2"))
  | .pickRandom => .number (randomBetween s.pick (num "FROM") (num "TO"))
  | .greater => .ofBool (operands == .gt)
  | .less => .ofBool (operands == .lt)
  | .equals => .ofBool (operands == .eq)
  | .both => .ofBool ((arg "OPERAND1").isTruthy && (arg "OPERAND2").isTruthy)
  | .either => .ofBool ((arg "OPERAND1").isTruthy || (arg "OPERAND2").isTruthy)
  | .negation => .ofBool (!(arg "OPERAND").isTruthy)
  | .join => .text (text "STRING1" ++ text "STRING2")
  | .letterOf => letterAt (num "LETTER") (text "STRING")
  | .length => .number (Float.ofNat (text "STRING").toList.length)
  | .contains =>
    .ofBool (Text.contains (Text.lower (text "STRING1")) (Text.lower (text "STRING2")))
  | .round => .number (Number.roundHalfUp (num "NUM"))
  | .function =>
    match Number.Function.ofName? (text "OP") with
    | some f => .number (f.apply (num "NUM"))
    | none => .empty
  | _ => .empty

/-- The parameters that a reporter looks at. Logic stops at the first operand that decides, and
a letter is looked up only at a whole place. -/
def BlockKind.consulted (kind : BlockKind) (arg : String → Value) : List String :=
  match kind with
  | .keyPressed => ["key"]
  | .touching => ["target"]
  | .readVariable => ["variable"]
  | .add | .subtract | .multiply | .divide | .remainder => ["NUM1", "NUM2"]
  | .pickRandom => ["FROM", "TO"]
  | .greater | .less | .equals => ["OPERAND1", "OPERAND2"]
  | .both =>
    if (arg "OPERAND1").isTruthy then ["OPERAND1", "OPERAND2"] else ["OPERAND1"]
  | .either =>
    if (arg "OPERAND1").isTruthy then ["OPERAND1"] else ["OPERAND1", "OPERAND2"]
  | .negation => ["OPERAND"]
  | .join | .contains => ["STRING1", "STRING2"]
  | .letterOf =>
    let place := (arg "LETTER").toNumber
    if place ≥ 1 && Number.isIntegral place then ["LETTER", "STRING"] else ["LETTER"]
  | .length => ["STRING"]
  | .round => ["NUM"]
  | .function => ["OP", "NUM"]
  | _ => []

/-- Unbound parameters read as empty. -/
def argument (values : Table Value) (name : String) : Value :=
  (values.get? name).getD .empty

mutual

/-- The value of a parameter of a block that is itself nested `depth` levels deep. -/
def Param.valueAt (s : Scene) (cap depth : Nat) : Param → Value
  | .literal v => v
  | .variable name => s.valueOf name
  | .reporter kind params =>
    if cap < depth + 1 then .empty
    else if kind.shape = .reporter then
      s.report kind (argument (paramValues s cap (depth + 1) params))
    else .empty

def paramValues (s : Scene) (cap depth : Nat) : List (String × Param) → Table Value
  | [] => []
  | (name, p) :: rest => (name, p.valueAt s cap depth) :: paramValues s cap depth rest

end

mutual

/-- How many reporters are passed over for being nested too deeply. -/
def Param.overrunsAt (s : Scene) (cap depth : Nat) : Param → Nat
  | .literal _ => 0
  | .variable _ => 0
  | .reporter kind params =>
    if cap < depth + 1 then 1
    else if kind.shape = .reporter then
      let arg := argument (paramValues s cap (depth + 1) params)
      let overruns := paramOverruns s cap (depth + 1) params
      ((kind.consulted arg).map fun name => (overruns.get? name).getD 0).sum
    else 0

def paramOverruns (s : Scene) (cap depth : Nat) : List (String × Param) → Table Nat
  | [] => []
  | (name, p) :: rest => (name, p.overrunsAt s cap depth) :: paramOverruns s cap depth rest

end

namespace Scene

def resolve (s : Scene) (cap : Nat) (p : Option Param) : Value :=
  match p with
  | some p => p.valueAt s cap 0
  | none => .empty

/-- The value of a reporter that stands by itself. -/
def evaluate (s : Scene) (cap : Nat) (kind : BlockKind) (params : Table Param) : Value :=
  if kind.shape = .reporter then s.report kind (argument (paramValues s cap 0 params))
  else .empty

end Scene

end BlockScript
