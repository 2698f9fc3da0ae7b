import Decompiled.TreeError

/-!
# Arenas

The nodes of a tree lie in numbered slots. A slot is never given up or used
again: a removed node is only marked, so an index collected before an edit
keeps its meaning after it.

* `Arena.get?_append`: a new slot hides no older one.
* `Arena.get?_modify`: changing one slot changes no other.
-/

namespace Decompiled

/-- The slots of one or more trees, in the order they were made. -/
structure Arena where
  nodes : Array Node
  deriving DecidableEq

namespace Arena

/-- An arena without slots. -/
def empty : Arena := ⟨#[]⟩

instance : Inhabited Arena := ⟨empty⟩

/-- The number of slots, those of removed nodes included. -/
def size (a : Arena) : Nat := a.nodes.size

/-- The number of nodes that have not been removed. -/
def liveCount (a : Arena) : Nat := a.nodes.countP fun node => !node.removed

/-- The node of an index, removed or not. -/
def get? (a : Arena) (index : NodeIndex) : Option Node :=
  if index.isNone then none else a.nodes[index.toNat]?

/-- The node of an index, which must exist and not have been removed. -/
def live (a : Arena) (index : NodeIndex) : Except TreeError Node :=
  match a.get? index with
  | none => .error (.invalidIndex index)
  | some node => if node.removed then .error (.removed index) else .ok node

/-- The live node of an index, which must be of the given kind. -/
def liveOfKind (a : Arena) (index : NodeIndex) (expected : NodeKind) :
    Except TreeError Node :=
  match a.live index with
  | .error e => .error e
  | .ok node =>
      if node.kind = expected then .ok node
      else .error (.kindMismatch index expected node.kind)

/-- Whether an index names a node that has not been removed. -/
def isLive (a : Arena) (index : NodeIndex) : Bool :=
  (a.get? index).any fun node => !node.removed

/-! ## Looking at a node -/

/-- The kind of a node, removed or not. -/
def kind? (a : Arena) (index : NodeIndex) : Option NodeKind :=
  (a.get? index).map Node.kind

/-- The parent of a node that has one. -/
def parent? (a : Arena) (index : NodeIndex) : Option NodeIndex :=
  (a.get? index).bind fun node => node.parent.toOption

/-- The children of a node in order; none for an index without a node. -/
def children (a : Arena) (index : NodeIndex) : List NodeIndex :=
  match a.get? index with
  | some node => node.children
  | none => []

/-- What follows the first occurrence of `index` in a list. -/
def follower? (index : NodeIndex) : List NodeIndex → Option NodeIndex
  | [] => none
  | child :: rest => if child = index then rest.head? else follower? index rest

/-- The node directly after `index` among the children of its parent. -/
def nextSibling? (a : Arena) (index : NodeIndex) : Option NodeIndex :=
  (a.parent? index).bind fun parent => follower? index (a.children parent)

/-- The children of a node that are of the given kind, in order. -/
def childrenOfKind (a : Arena) (parent : NodeIndex) (kind : NodeKind) : List NodeIndex :=
  (a.children parent).filter fun child => a.kind? child == some kind

/-- The attributes of a section, in order. -/
def attributes (a : Arena) (sectionIndex : NodeIndex) : List NodeIndex :=
  a.childrenOfKind sectionIndex .attributeUse

/-- The arguments of an attribute, in order. -/
def arguments (a : Arena) (attributeIndex : NodeIndex) : List NodeIndex :=
  a.childrenOfKind attributeIndex .argument

/-- The members of a declaration: its children less its own name and the
sections of attributes applied to it. -/
def members (a : Arena) (declaration : NodeIndex) : List NodeIndex :=
  match a.get? declaration with
  | none => []
  | some node =>
      node.children.filter fun child =>
        some child != node.data.nameSlot? && a.kind? child != some .attributeSection

/-- The name held by an identifier. -/
def identifierName? (a : Arena) (index : NodeIndex) : Option String :=
  (a.get? index).bind fun node =>
    match node.data with
    | .identifier name => some name
    | _ => none

/-- The target of a section of attributes. -/
def attributeTarget? (a : Arena) (sectionIndex : NodeIndex) : Option AttributeTarget :=
  (a.get? sectionIndex).bind fun node =>
    match node.data with
    | .attributeSection target => some target
    | _ => none

/-- The type reference of an attribute that has one. -/
def attributeTypeRef? (a : Arena) (attributeIndex : NodeIndex) : Option NodeIndex :=
  (a.get? attributeIndex).bind fun node =>
    match node.data with
    | .attributeUse typeRef => typeRef.toOption
    | _ => none

/-- The argument held by a node. -/
def argument? (a : Arena) (index : NodeIndex) : Option Argument :=
  (a.get? index).bind fun node =>
    match node.data with
    | .argument value => some value
    | _ => none

/-! ## Changing slots -/

/-- The index that the next new slot gets. -/
def nextIndex (a : Arena) : NodeIndex := .ofCount a.size

/-- Add a slot at the end. -/
def append (a : Arena) (node : Node) : Arena := ⟨a.nodes.push node⟩

/-- Change the node of an index; nothing happens when there is none. -/
def modify (a : Arena) (index : NodeIndex) (f : Node → Node) : Arena :=
  if index.isNone then a else ⟨a.nodes.modify index.toNat f⟩

@[simp] theorem size_append (a : Arena) (node : Node) :
    (a.append node).size = a.size + 1 := by
  simp [append, size]

@[simp] theorem size_modify (a : Arena) (index : NodeIndex) (f : Node → Node) :
    (a.modify index f).size = a.size := by
  unfold modify
  split <;> simp [size]

@[simp] theorem get?_none (a : Arena) : a.get? .none = none := rfl

/-- Changing one slot changes no other. -/
theorem get?_modify (a : Arena) (index other : NodeIndex) (f : Node → Node) :
    (a.modify index f).get? other =
      if other = index then (a.get? other).map f else a.get? other := by
  unfold modify get?
  by_cases hnone : index.isNone
  · have habsent : index = .none := NodeIndex.isNone_iff.mp hnone
    subst habsent
    by_cases heq : other = .none
    · simp [heq]
    · simp [heq]
  · by_cases heq : other = index
    · subst heq
      simp [hnone, Array.getElem?_modify]
    · have hne : index.toNat ≠ other.toNat := fun h => heq (NodeIndex.toNat_inj.mp h).symm
      simp [hnone, heq, Array.getElem?_modify, hne]

/-- A new slot hides no older one. -/
theorem get?_append (a : Arena) (node : Node) (index : NodeIndex) :
    (a.append node).get? index =
      if index.isNone then none
      else if index.toNat = a.size then some node else a.get? index := by
  unfold append get? size
  by_cases hnone : index.isNone
  · simp [hnone]
  · by_cases heq : index.toNat = a.nodes.size
    · simp [hnone, heq]
    · simp [hnone, heq, Array.getElem?_push]

end Arena

end Decompiled
