import Decompiled.Arena.Remove
import Decompiled.Annotations

/-!
# Syntax trees

One decompiled unit: an arena, the root of its tree, and the table of resolved
names beside it.
-/

namespace Decompiled

/-- The tree of one decompiled unit. -/
structure SyntaxTree where
  arena : Arena
  root : NodeIndex
  annotations : Annotations
  deriving DecidableEq

/-- A step on a syntax tree. -/
abbrev TreeEdit (α : Type) : Type := Attempt SyntaxTree TreeError α

namespace SyntaxTree

/-- A tree whose root is a compilation unit without children. -/
def new : SyntaxTree where
  arena := Arena.empty.append (.fresh .compilationUnit .none)
  root := .ofCount 0
  annotations := .empty

instance : Inhabited SyntaxTree := ⟨new⟩

/-- An edit of the arena as a step on the tree. -/
def edit {α : Type} (change : Edit α) : TreeEdit α :=
  Attempt.focus (fun ⟨arena, root, annotations⟩ => (arena, (⟨·, root, annotations⟩))) id
    change

/-- Record the full name of the type of an attribute. The attribute must have a
type reference; it may have been removed. -/
def annotateAttribute (index : NodeIndex) (fullName : String) : TreeEdit Unit :=
  fun tree =>
    match tree.arena.attributeTypeRef? index with
    | none =>
        (.error (.kindMismatch index .attributeUse
          ((tree.arena.kind? index).getD .other)), tree)
    | some typeRef =>
        (.ok (), { tree with annotations := tree.annotations.setType typeRef fullName })

/-- Record the definition behind a live type declaration. -/
def annotateTypeDeclaration (index : NodeIndex) (definition : Definition) :
    TreeEdit Unit := do
  let _ ← edit (Edit.liveOfKind index .typeDeclaration)
  Attempt.update fun tree =>
    { tree with annotations := tree.annotations.setDefinition index definition }

/-- The full name of the type of an attribute, if it was resolved. -/
def attributeFullName? (tree : SyntaxTree) (index : NodeIndex) : Option String :=
  (tree.arena.attributeTypeRef? index).bind tree.annotations.typeOf?

/-- The names of the live identifiers below the root, in the order of the
walk. -/
def identifierNames (tree : SyntaxTree) : List String :=
  (tree.arena.descendantsOfKind tree.root .identifier).filterMap
    tree.arena.identifierName?

theorem edit_apply {α : Type} (change : Edit α) (tree : SyntaxTree) :
    edit change tree =
      ((change tree.arena).1, { tree with arena := (change tree.arena).2 }) := by
  unfold edit
  rw [Attempt.focus_apply]
  rcases (change tree.arena).1 with _ | _ <;> rfl

/-- A definition is recorded exactly for a live type declaration. -/
theorem annotateTypeDeclaration_apply (index : NodeIndex) (definition : Definition)
    (tree : SyntaxTree) :
    annotateTypeDeclaration index definition tree =
      match tree.arena.liveOfKind index .typeDeclaration with
      | .error e => (.error e, tree)
      | .ok _ =>
          (.ok (),
            { tree with annotations := tree.annotations.setDefinition index definition }) := by
  unfold annotateTypeDeclaration
  rw [Attempt.bind_apply, edit_apply, Edit.liveOfKind_apply]
  rcases tree.arena.liveOfKind index .typeDeclaration with _ | _ <;> rfl

end SyntaxTree

end Decompiled
