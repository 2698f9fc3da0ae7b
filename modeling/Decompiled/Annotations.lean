import Decompiled.Node.Index

/-!
# Annotations

A resolver looks up what the names in a tree mean and writes its findings into
a table beside the tree, before any pass runs. The passes only read it, and a
node without an entry is unresolved.

* `Annotations.typeOf?_setType`, `Annotations.definitionOf?_setDefinition`: the last
  entry made for a node is the one found.
-/

namespace Decompiled

/-- Well-known facts about the definition of a type, one bit each. -/
structure DefinitionFlags where
  bits : UInt32
  deriving DecidableEq

/-- Whether bit 0 is set: the compiler copied the type in. -/
def DefinitionFlags.embedded (flags : DefinitionFlags) : Bool := flags.bits &&& 1 == 1

/-- The resolved definition behind a type declaration. -/
structure Definition where
  fullName : String
  flags : DefinitionFlags
  deriving DecidableEq

/-- What a resolver found out about the nodes of a tree, the latest entry
first. -/
structure Annotations where
  /-- Full names of the types behind type references. -/
  types : List (NodeIndex × String)
  /-- Definitions behind type declarations. -/
  definitions : List (NodeIndex × Definition)
  deriving DecidableEq

namespace Annotations

/-- A table without entries. -/
def empty : Annotations := ⟨[], []⟩

instance : Inhabited Annotations := ⟨empty⟩

/-- Record the full name of the type behind a reference. -/
def setType (annotations : Annotations) (typeRef : NodeIndex) (fullName : String) :
    Annotations :=
  { annotations with types := (typeRef, fullName) :: annotations.types }

/-- Record the definition behind a declaration. -/
def setDefinition (annotations : Annotations) (declaration : NodeIndex)
    (definition : Definition) : Annotations :=
  { annotations with definitions := (declaration, definition) :: annotations.definitions }

/-- The full name of the type behind a reference. -/
def typeOf? (annotations : Annotations) (typeRef : NodeIndex) : Option String :=
  annotations.types.lookup typeRef

/-- The definition behind a declaration. -/
def definitionOf? (annotations : Annotations) (declaration : NodeIndex) :
    Option Definition :=
  annotations.definitions.lookup declaration

/-- Whether no entry has been made. -/
def isEmpty (annotations : Annotations) : Bool :=
  annotations.types.isEmpty && annotations.definitions.isEmpty

/-- The last entry made for a reference is the one found. -/
theorem typeOf?_setType (annotations : Annotations) (typeRef other : NodeIndex)
    (fullName : String) :
    (annotations.setType typeRef fullName).typeOf? other =
      if other = typeRef then some fullName else annotations.typeOf? other := by
  unfold setType typeOf?
  rw [List.lookup_cons]
  by_cases h : other = typeRef
  · simp [h]
  · simp [h, beq_false_of_ne h]

/-- The last entry made for a declaration is the one found. -/
theorem definitionOf?_setDefinition (annotations : Annotations) (declaration other : NodeIndex)
    (definition : Definition) :
    (annotations.setDefinition declaration definition).definitionOf? other =
      if other = declaration then some definition else annotations.definitionOf? other := by
  unfold setDefinition definitionOf?
  rw [List.lookup_cons]
  by_cases h : other = declaration
  · simp [h]
  · simp [h, beq_false_of_ne h]

end Annotations

end Decompiled
