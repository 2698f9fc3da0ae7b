import Decompiled.Node.Index
import Decompiled.Node.Argument

/-!
# Nodes

The kinds of node that the passes look at, each with what it carries. All else
a decompiler produces (statements, expressions, member bodies) is held as
`NodeData.other` and left alone.
-/

namespace Decompiled

/-- What a section of attributes applies to. -/
inductive AttributeTarget where
  | assembly
  | wholeModule
  /-- Any other target keyword, empty for a section without one. -/
  | other (keyword : String)
  deriving DecidableEq

namespace AttributeTarget

/-- The target that a keyword names. -/
def ofKeyword (keyword : String) : AttributeTarget :=
  if keyword = "assembly" then assembly
  else if keyword = "module" then wholeModule
  else other keyword

end AttributeTarget

/-- The sorts of type declaration. -/
inductive TypeKind where
  | classType
  | structType
  | interfaceType
  | enumType
  | delegateType
  deriving DecidableEq

/-- The kinds of node. -/
inductive NodeKind where
  | compilationUnit
  | identifier
  | attributeSection
  | attributeUse
  | typeReference
  | argument
  | typeDeclaration
  | namespaceDeclaration
  | other
  deriving DecidableEq

/-- How a kind is written in messages. -/
def NodeKind.name : NodeKind → String
  | compilationUnit => "CompilationUnit"
  | identifier => "Identifier"
  | attributeSection => "AttributeSection"
  | attributeUse => "Attribute"
  | typeReference => "TypeReference"
  | argument => "Argument"
  | typeDeclaration => "TypeDeclaration"
  | namespaceDeclaration => "NamespaceDeclaration"
  | other => "Other"

/-- What a node carries besides its place in the tree. -/
inductive NodeData where
  | compilationUnit
  | identifier (name : String)
  | attributeSection (target : AttributeTarget)
  /-- An attribute and the type reference below it that names its type. -/
  | attributeUse (typeRef : NodeIndex)
  /-- The name of a type as written in the tree, resolved or not. -/
  | typeReference (name : String)
  | argument (value : Argument)
  /-- A type declaration and the identifier below it that holds its name. -/
  | typeDeclaration (kind : TypeKind) (name : NodeIndex)
  /-- A namespace and the identifier below it that holds its name. -/
  | namespaceDeclaration (name : NodeIndex)
  | other (label : String)
  deriving DecidableEq

namespace NodeData

/-- The kind of node that carries this. -/
def kind : NodeData → NodeKind
  | compilationUnit => .compilationUnit
  | identifier _ => .identifier
  | attributeSection _ => .attributeSection
  | attributeUse _ => .attributeUse
  | typeReference _ => .typeReference
  | argument _ => .argument
  | typeDeclaration _ _ => .typeDeclaration
  | namespaceDeclaration _ => .namespaceDeclaration
  | other _ => .other

/-- The child that holds the node's own name. It belongs to the declaration
itself and is no member of it. -/
def nameSlot? : NodeData → Option NodeIndex
  | typeDeclaration _ name => name.toOption
  | namespaceDeclaration name => name.toOption
  | _ => none

end NodeData

/-- A slot of an arena. A removed node keeps its data and its children. -/
structure Node where
  data : NodeData
  /-- The node that this one was put under, or `NodeIndex.none`. -/
  parent : NodeIndex
  children : List NodeIndex
  removed : Bool
  deriving DecidableEq

namespace Node

/-- A live node without children. -/
def fresh (data : NodeData) (parent : NodeIndex) : Node :=
  { data, parent, children := [], removed := false }

/-- The kind of a node. -/
def kind (node : Node) : NodeKind := node.data.kind

end Node

end Decompiled
