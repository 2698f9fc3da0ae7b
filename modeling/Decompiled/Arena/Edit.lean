import Decompiled.Attempt
import Decompiled.Arena.Basic

/-!
# Growing a tree

An `Edit` is a step on an arena. The edits here add nodes and change what a
node carries; cutting a subtree off is in `Decompiled.Arena.Remove`.

Every edit checks the indices it is given before it changes anything. Those
that add two nodes add the first, then the second below it, then name the
second in the first.

* `Edit.addChild_of_live`, `Edit.addChild_of_error`: adding a child succeeds
  exactly below a live node.
-/

namespace Decompiled

/-- A step on an arena. -/
abbrev Edit (α : Type) : Type := Attempt Arena TreeError α

namespace Edit

/-- The live node of an index. -/
def live (index : NodeIndex) : Edit Node := Attempt.ask fun a => a.live index

/-- The live node of an index, which must be of the given kind. -/
def liveOfKind (index : NodeIndex) (expected : NodeKind) : Edit Node :=
  Attempt.ask fun a => a.liveOfKind index expected

/-- Change what the node of an index carries. -/
def patch (index : NodeIndex) (f : NodeData → NodeData) : Edit Unit :=
  Attempt.update fun a => a.modify index fun node => { node with data := f node.data }

/-- Add a node at the end of the arena. A parent other than `NodeIndex.none`
lists it as its last child. -/
def attach (parent : NodeIndex) (data : NodeData) : Edit NodeIndex := fun a =>
  let index := a.nextIndex
  (.ok index,
    (a.append (.fresh data parent)).modify parent fun node =>
      { node with children := node.children ++ [index] })

/-- Add a node without a parent. -/
def addRoot (data : NodeData) : Edit NodeIndex := attach .none data

/-- Add a node as the last child of a live node. -/
def addChild (parent : NodeIndex) (data : NodeData) : Edit NodeIndex := do
  let _ ← live parent
  attach parent data

/-- Add an identifier. -/
def addIdentifier (parent : NodeIndex) (name : String) : Edit NodeIndex :=
  addChild parent (.identifier name)

/-- Add a section of attributes. -/
def addAttributeSection (parent : NodeIndex) (target : AttributeTarget) :
    Edit NodeIndex :=
  addChild parent (.attributeSection target)

/-- Add an attribute to a section, and below it a reference to its type as
written. -/
def addAttribute (sectionIndex : NodeIndex) (typeName : String) : Edit NodeIndex := do
  let _ ← liveOfKind sectionIndex .attributeSection
  let index ← addChild sectionIndex (.attributeUse .none)
  let typeRef ← addChild index (.typeReference typeName)
  patch index fun
    | .attributeUse _ => .attributeUse typeRef
    | data => data
  return index

/-- Add an argument to an attribute. -/
def addArgument (attributeIndex : NodeIndex) (argument : Argument) :
    Edit NodeIndex := do
  let _ ← liveOfKind attributeIndex .attributeUse
  addChild attributeIndex (.argument argument)

/-- Add a type declaration, and below it the identifier of its name. -/
def addTypeDeclaration (parent : NodeIndex) (kind : TypeKind) (name : String) :
    Edit NodeIndex := do
  let index ← addChild parent (.typeDeclaration kind .none)
  let identifier ← addIdentifier index name
  patch index fun
    | .typeDeclaration kind _ => .typeDeclaration kind identifier
    | data => data
  return index

/-- Add a namespace, and below it the identifier of its name. -/
def addNamespace (parent : NodeIndex) (name : String) : Edit NodeIndex := do
  let index ← addChild parent (.namespaceDeclaration .none)
  let identifier ← addIdentifier index name
  patch index fun
    | .namespaceDeclaration _ => .namespaceDeclaration identifier
    | data => data
  return index

/-- Add a node of no particular kind. -/
def addOther (parent : NodeIndex) (label : String) : Edit NodeIndex :=
  addChild parent (.other label)

/-- Give a live identifier another name. -/
def setIdentifierName (index : NodeIndex) (name : String) : Edit Unit := do
  let _ ← liveOfKind index .identifier
  patch index fun _ => .identifier name

/-- Replace what a node carries, removed or not. Answers whether there is such
a node. -/
def replaceData (index : NodeIndex) (data : NodeData) : Edit Bool := do
  let found ← Attempt.view fun a => (a.get? index).isSome
  patch index fun _ => data
  return found

/-! ## What the edits do -/

theorem live_apply (index : NodeIndex) (a : Arena) :
    live index a = (a.live index, a) := rfl

theorem liveOfKind_apply (index : NodeIndex) (expected : NodeKind) (a : Arena) :
    liveOfKind index expected a = (a.liveOfKind index expected, a) := rfl

/-- Below a live node a child is always added. -/
theorem addChild_of_live {a : Arena} {parent : NodeIndex} {node : Node}
    (data : NodeData) (h : a.live parent = .ok node) :
    addChild parent data a = attach parent data a := by
  unfold addChild
  rw [Attempt.bind_of_ok (by rw [live_apply, h])]

/-- Anywhere else nothing is, and the arena stays as it is. -/
theorem addChild_of_error {a : Arena} {parent : NodeIndex} {e : TreeError}
    (data : NodeData) (h : a.live parent = .error e) :
    addChild parent data a = (.error e, a) := by
  unfold addChild
  rw [Attempt.bind_of_error (by rw [live_apply, h])]

end Edit

end Decompiled
