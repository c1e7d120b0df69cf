import BlockScript.Block
import BlockScript.Number.Rounding

/-! The structure of a script, read off the positions of its blocks. Below a block stands its
successor, indented under the head of a wrap block stands the first block of its body, and a
wrap block grows with its body. -/

namespace BlockScript.Layout

def blockHeight : Float := 40
def hatHeight : Float := 40
def headHeight : Float := 36
def footHeight : Float := 16
def leastBodyHeight : Float := 24
def indent : Float := 20
def stackTolerance : Float := 20

/-- Bodies nested deeper than this are measured as empty. -/
def measuredNesting : Nat := 32

/-- The nearer of two candidates, the earlier one if they are equally near. -/
def nearer (expected : Point) (best : Option (Block × Float)) (b : Block) :
    Option (Block × Float) :=
  let distance := b.position.distance expected
  match best with
  | some (c, least) => if least ≤ distance then some (c, least) else some (b, distance)
  | none => some (b, distance)

/-- The blocks that may stand at `expected` next to `b`. -/
def candidates (blocks : List Block) (b : Block) (expected : Point) : List Block :=
  blocks.filter fun c => c.id != b.id && c.canFollow && c.position.near expected stackTolerance

def nearest (blocks : List Block) (b : Block) (expected : Point) : Option Block :=
  ((candidates blocks b expected).foldl (nearer expected) none).map Prod.fst

def insidePoint (b : Block) : Point :=
  ⟨b.position.x + indent, b.position.y + headHeight⟩

def firstChild (blocks : List Block) (b : Block) : Option Block :=
  if b.shape = .wrap then nearest blocks b (insidePoint b) else none

/-- The block that follows `b` when `b` is `height` high. -/
def follower (blocks : List Block) (b : Block) (height : Float) : Option Block :=
  if b.shape = .reporter then none
  else nearest blocks b ⟨b.position.x, b.position.y + height⟩

/-- The blocks from `b` downwards with their heights, up to the first whose id was seen. -/
def walk (blocks : List Block) (height : Block → Float) :
    Nat → List String → Block → List (Block × Float)
  | 0, _, _ => []
  | n + 1, seen, b =>
    if b.id ∈ seen then []
    else
      let h := height b
      (b, h) :: match follower blocks b h with
        | some c => walk blocks height n (b.id :: seen) c
        | none => []

/-- A walk passes every id once, so it has at most one block more than the script. -/
def walkBound (blocks : List Block) : Nat :=
  blocks.length + 1

/-- The height of `b` when the body of a wrap block is `body` high. -/
def heightWith (body : Block → Float) (b : Block) : Float :=
  match b.shape with
  | .wrap => headHeight + body b + footHeight
  | .hat => hatHeight
  | .stack => blockHeight
  | .reporter => blockHeight

/-- The height of the body of `b`, measuring `levels` levels of nesting. -/
def bodyHeightAt (blocks : List Block) : Nat → Block → Float
  | 0, _ => leastBodyHeight
  | levels + 1, b =>
    match firstChild blocks b with
    | none => leastBodyHeight
    | some first =>
      let body := walk blocks (heightWith (bodyHeightAt blocks levels)) (walkBound blocks)
        [b.id] first
      Number.atLeast (body.foldl (fun total c => total + c.2) 0) leastBodyHeight

def bodyHeight (blocks : List Block) (b : Block) : Float :=
  bodyHeightAt blocks measuredNesting b

def height (blocks : List Block) (b : Block) : Float :=
  heightWith (bodyHeight blocks) b

def successor (blocks : List Block) (b : Block) : Option Block :=
  follower blocks b (height blocks b)

/-- The block `b` and every block below it. Reporters stand alone. -/
def stack (blocks : List Block) (b : Block) : List Block :=
  (walk blocks (height blocks) (walkBound blocks) [] b).map Prod.fst

def body (blocks : List Block) (b : Block) : List Block :=
  match firstChild blocks b with
  | some first => stack blocks first
  | none => []

def bottomPoint (blocks : List Block) (b : Block) : Point :=
  ⟨b.position.x, b.position.y + height blocks b⟩

end BlockScript.Layout
