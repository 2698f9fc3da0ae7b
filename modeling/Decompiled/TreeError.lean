import Decompiled.Node.Basic

/-!
# Structural errors

An edit fails when it is given an index that names no node, a removed node or a
node of the wrong kind, or when the tree is not what the edit needs.
-/

namespace Decompiled

/-- Why an edit of a tree was refused. -/
inductive TreeError where
  | invalidIndex (index : NodeIndex)
  | removed (index : NodeIndex)
  | noParent (index : NodeIndex)
  | notAChild (child parent : NodeIndex)
  | kindMismatch (index : NodeIndex) (expected found : NodeKind)
  deriving DecidableEq

/-- The text of an error. -/
def TreeError.message : TreeError → String
  | invalidIndex index => "node " ++ index.text ++ " does not exist in this arena"
  | removed index => "node " ++ index.text ++ " has already been removed from the tree"
  | noParent index => "node " ++ index.text ++ " has no parent"
  | notAChild child parent =>
      "node " ++ child.text ++ " is not listed among the children of its parent " ++
        parent.text
  | kindMismatch index expected found =>
      "node " ++ index.text ++ " is a " ++ found.name ++ ", expected " ++ expected.name

end Decompiled
