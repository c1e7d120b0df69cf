import BlockScript.Layout

/-! Snapping: a dropped block jumps to the nearest attachment point that is close enough. -/

namespace BlockScript

inductive Attachment where
  | bottom | inside
  deriving DecidableEq

structure Snap where
  target : String
  attachment : Attachment
  position : Point

namespace Snap

def occupancyTolerance : Float := 10
def threshold : Float := 40

def isOccupied (blocks : List Block) (excluded : List String) (p : Point) : Bool :=
  blocks.any fun b => !excluded.contains b.id && b.position.near p occupancyTolerance

/-- The places at `b` where a block may attach. -/
def offers (blocks : List Block) (excluded : List String) (b : Block) : List Snap :=
  let bottom :=
    if b.shape = .reporter then [] else [⟨b.id, .bottom, Layout.bottomPoint blocks b⟩]
  let inside :=
    if b.shape = .wrap && !isOccupied blocks excluded (Layout.insidePoint b) then
      [⟨b.id, .inside, Layout.insidePoint b⟩]
    else []
  bottom ++ inside

/-- Every attachment that the blocks outside `excluded` offer, in block order. -/
def attachments (blocks : List Block) (excluded : List String) : List Snap :=
  (blocks.filter fun b => !excluded.contains b.id).flatMap (offers blocks excluded)

/-- Takes `s` over `best` if it is strictly closer to `p`. -/
def closer (p : Point) (best : Option (Snap × Float)) (s : Snap) : Option (Snap × Float) :=
  let distance := p.distance s.position
  let limit := match best with
    | some (_, least) => least
    | none => threshold
  if distance < limit then some (s, distance) else best

/-- The attachment for a block of shape `shape` dropped at `p`. Hats and reporters never snap. -/
def find? (blocks : List Block) (shape : Shape) (p : Point) (excluded : List String) :
    Option Snap :=
  match shape with
  | .hat => none
  | .reporter => none
  | _ => ((attachments blocks excluded).foldl (closer p) none).map Prod.fst

/-- Where a block dropped at `p` lands. -/
def landing (blocks : List Block) (shape : Shape) (p : Point) (excluded : List String) : Point :=
  ((find? blocks shape p excluded).map (·.position)).getD p

end Snap

end BlockScript
