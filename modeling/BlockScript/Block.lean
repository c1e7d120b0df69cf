import BlockScript.Catalog.Palette
import BlockScript.Number.Distance

/-! Placed blocks and their parameters. A block knows where it stands; which block follows it
is read off the positions. -/

namespace BlockScript

structure Point where
  x : Float
  y : Float
  deriving DecidableEq

namespace Point

def origin : Point := ⟨0, 0⟩

def distance (p q : Point) : Float :=
  Number.hypot (p.x - q.x) (p.y - q.y)

/-- Whether `q` is less than `tolerance` away on both axes. -/
def near (p q : Point) (tolerance : Float) : Bool :=
  (p.x - q.x).abs < tolerance && (p.y - q.y).abs < tolerance

def sub (p q : Point) : Point :=
  ⟨p.x - q.x, p.y - q.y⟩

def add (p q : Point) : Point :=
  ⟨p.x + q.x, p.y + q.y⟩

/-- Equality of coordinates as numbers, which does not tell the zeros apart. -/
def same (p q : Point) : Bool :=
  p.x == q.x && p.y == q.y

end Point

inductive Param where
  | literal (v : Value)
  | variable (name : String)
  | reporter (kind : BlockKind) (params : List (String × Param))

def BlockKind.startParams (k : BlockKind) : Table Param :=
  k.defaults.map fun b => (b.1, .literal b.2)

structure Block where
  id : String
  kind : BlockKind
  position : Point
  params : Table Param

namespace Block

def create (id : String) (kind : BlockKind) (position : Point) : Block :=
  ⟨id, kind, position, kind.startParams⟩

def shape (b : Block) : Shape :=
  b.kind.shape

/-- Hats and reporters never follow another block. -/
def canFollow (b : Block) : Bool :=
  b.shape == .stack || b.shape == .wrap

def literalText? (b : Block) (name : String) : Option String :=
  match b.params.get? name with
  | some (.literal v) => some v.toText
  | _ => none

def shift (b : Block) (d : Point) : Block :=
  { b with position := b.position.add d }

end Block

end BlockScript
