import BlockScript.Catalog.Kind

/-! Why an edit or a run was refused. -/

namespace BlockScript

inductive EditError where
  | unknownBlock (id : String)
  | unknownSprite (id : String)
  | unknownExtension (id : String)
  | noParameter (kind : BlockKind) (name : String)
  | blockExists (id : String)
  | emptyVariableName
  | reservedVariableName (name : String)
  | variableExists (name : String)
  | foreignProject
  deriving DecidableEq

def EditError.message : EditError → String
  | unknownBlock id => "unknown block '" ++ id ++ "'"
  | unknownSprite id => "unknown sprite '" ++ id ++ "'"
  | unknownExtension id => "unknown extension '" ++ id ++ "'"
  | noParameter kind name => kind.identifier ++ " has no parameter '" ++ name ++ "'"
  | blockExists id => "block '" ++ id ++ "' already exists"
  | emptyVariableName => "variable name is empty"
  | reservedVariableName name => "'" ++ name ++ "' is a reserved variable name"
  | variableExists name => "a variable named '" ++ name ++ "' already exists"
  | foreignProject => "project does not own this interpreter's stage"

end BlockScript
