import BlockScript.Catalog.Template

/-! The palette: the core categories, followed by the extensions that are switched on. -/

namespace BlockScript

structure Extension where
  id : String
  name : String
  description : String
  category : Category

namespace Extension

def blocks (e : Extension) : List BlockKind :=
  e.category.blocks

def all : List Extension :=
  [⟨"pen", "Pen", "Draw with your sprites.", .pen⟩,
   ⟨"3d", "3D", "Create 3D objects with AI.", .threeD⟩]

def find? (id : String) : Option Extension :=
  all.find? (·.id == id)

end Extension

namespace Category

def core : List Category :=
  [motion, looks, sound, events, control, sensing, operators, «variables», myBlocks]

end Category

namespace BlockKind

def all : List BlockKind :=
  (Category.core ++ Extension.all.map (·.category)).flatMap Category.blocks

def ofIdentifier? (s : String) : Option BlockKind :=
  all.find? (·.identifier == s)

end BlockKind

/-- The categories shown when the extensions `ids` are switched on. Unknown extensions are
passed over. -/
def palette (ids : List String) : List Category :=
  ids.foldl (fun shown id =>
    match Extension.find? id with
    | some e => if e.category ∈ shown then shown else shown ++ [e.category]
    | none => shown) Category.core

end BlockScript
