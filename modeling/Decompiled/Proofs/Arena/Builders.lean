import Decompiled.Proofs.Arena.Reachable
import Decompiled.SyntaxTree

/-!
# Building a tree

Whoever makes a tree builds it with operations that each add one node, or a node
and another one below it: an attribute with a reference to its type, a
declaration with the identifier of its name. The first of two such nodes names
the second one by its index.

* `NodeData.slot?`: what a node names, and of which kind that is meant to be.
* `Arena.Builder`: the operations.
* `Arena.Grows`: old nodes get new children at most, and what a new node names
  is a new child of it.
* `Arena.Builder.grows`: this is all that building does.
* `SyntaxTree.grow`: a tree that has been built on.
-/

namespace Decompiled

/-- The index by which a node names a child of its own, and the kind that the
child is meant to be of: the type reference of an attribute, and the identifier
of a declaration. -/
def NodeData.slot? : NodeData → Option (NodeIndex × NodeKind)
  | attributeUse typeRef => some (typeRef, .typeReference)
  | typeDeclaration _ name => some (name, .identifier)
  | namespaceDeclaration name => some (name, .identifier)
  | _ => none

namespace Arena

variable {a b : Arena} {parent i t x : NodeIndex} {data : NodeData} {kind : NodeKind}

/-- The index by which a node of an arena names a child. -/
def slot? (a : Arena) (index : NodeIndex) : Option (NodeIndex × NodeKind) :=
  (a.data? index).bind NodeData.slot?

/-- Nothing but an attribute names a type reference. -/
theorem slot?_eq_typeReference_iff :
    a.slot? i = some (t, .typeReference) ↔ a.data? i = some (.attributeUse t) := by
  unfold slot?
  rw [Option.bind_eq_some_iff]
  constructor
  · rintro ⟨data, hdata, hslot⟩
    cases data with
    | attributeUse typeRef =>
        cases hslot
        exact hdata
    | _ => cases hslot
  · exact fun hdata => ⟨_, hdata, rfl⟩

/-- The reference that an attribute names is its type reference, unless it stands
for "no node". -/
theorem attributeTypeRef?_eq_some_iff :
    a.attributeTypeRef? i = some t ↔ a.slot? i = some (t, .typeReference) ∧ t ≠ .none := by
  rw [attributeTypeRef?_iff, slot?_eq_typeReference_iff]

/-- Attributes name something. -/
theorem exists_slot_of_attributeUse (hkind : a.kind? i = some .attributeUse) :
    ∃ t, a.slot? i = some (t, .typeReference) := by
  rw [kind?_eq] at hkind
  obtain ⟨data, hdata, hkind⟩ := Option.map_eq_some_iff.mp hkind
  unfold slot?
  rw [hdata]
  cases data with
  | attributeUse typeRef => exact ⟨typeRef, rfl⟩
  | _ => cases hkind

/-- Nothing but an attribute has a type reference. -/
theorem kind?_of_typeRef (h : a.attributeTypeRef? i = some t) :
    a.kind? i = some .attributeUse := by
  obtain ⟨node, hget, hnode⟩ := Option.bind_eq_some_iff.mp h
  unfold kind?
  rw [hget]
  rcases node with ⟨data, _, _, _⟩
  cases data with
  | attributeUse _ => rfl
  | _ => cases hnode

/-! ## Builders -/

/-- The operations that add nodes of a given kind below others. -/
inductive Builder where
  | identifier (parent : NodeIndex) (name : String)
  | attributeSection (parent : NodeIndex) (target : AttributeTarget)
  | attributeUse (sectionIndex : NodeIndex) (typeName : String)
  | argument (attributeIndex : NodeIndex) (value : Argument)
  | typeDeclaration (parent : NodeIndex) (kind : TypeKind) (name : String)
  | namespaceDeclaration (parent : NodeIndex) (name : String)
  | other (parent : NodeIndex) (label : String)

/-- They are among the operations on an arena. -/
def Builder.operation : Builder → Operation
  | identifier parent name => .addIdentifier parent name
  | attributeSection parent target => .addAttributeSection parent target
  | attributeUse sectionIndex typeName => .addAttribute sectionIndex typeName
  | argument attributeIndex value => .addArgument attributeIndex value
  | typeDeclaration parent kind name => .addTypeDeclaration parent kind name
  | namespaceDeclaration parent name => .addNamespace parent name
  | other parent label => .addOther parent label

/-! ## Growing -/

/-- `b` is `a` with some new nodes. What a new node names is a child of it, in
the next slot and new as well. -/
structure Grows (a b : Arena) : Prop where
  old : ∀ {x node}, a.get? x = some node →
    ∃ added, b.get? x = some { node with children := node.children ++ added }
  fresh : ∀ {x c kind}, a.get? x = none → b.slot? x = some (c, kind) →
    a.get? c = none ∧ c.toNat = x.toNat + 1 ∧ c ∈ b.children x ∧ b.kind? c = some kind ∧
      b.parent? c = some x

namespace Grows

theorem refl (a : Arena) : Grows a a where
  old := by
    intro x node hget
    refine ⟨[], ?_⟩
    rw [hget, List.append_nil]
  fresh := by
    intro x c kind hnone hslot
    unfold slot? data? at hslot
    rw [hnone] at hslot
    cases hslot

theorem slot?_eq (h : Grows a b) {node : Node} (hget : a.get? x = some node) :
    b.slot? x = a.slot? x := by
  obtain ⟨added, hget'⟩ := h.old hget
  unfold slot?
  rw [data?_of_get? hget, data?_of_get? hget']

theorem attributeTypeRef?_eq (h : Grows a b) {node : Node} (hget : a.get? x = some node) :
    b.attributeTypeRef? x = a.attributeTypeRef? x := by
  obtain ⟨added, hget'⟩ := h.old hget
  unfold attributeTypeRef?
  rw [hget, hget']
  rfl

theorem kind?_eq (h : Grows a b) {node : Node} (hget : a.get? x = some node) :
    b.kind? x = a.kind? x := by
  obtain ⟨added, hget'⟩ := h.old hget
  unfold kind?
  rw [hget, hget']
  rfl

theorem kind?_of_old (h : Grows a b) (hkind : a.kind? x = some kind) :
    b.kind? x = some kind := by
  obtain ⟨node, hget, -⟩ := Option.map_eq_some_iff.mp hkind
  rw [h.kind?_eq hget, hkind]

/-- A slot that is still to come was still to come before. -/
theorem absent (h : Grows a b) (hnone : b.get? x = none) : a.get? x = none := by
  rcases hget : a.get? x with _ | node
  · rfl
  · obtain ⟨added, hget'⟩ := h.old hget
    rw [hnone] at hget'
    cases hget'

end Grows

/-! ## One node -/

/-- An attached node is in the next slot, at the end of the list of its parent. -/
theorem get?_attach_below (data : NodeData) (hroom : a.size < 0xFFFFFFFF)
    (hlive : a.isLive parent = true) (x : NodeIndex) :
    (Edit.attach parent data a).2.get? x =
      if x = a.nextIndex then some (.fresh data parent)
      else (a.get? x).map fun node =>
        { node with children := node.children ++ if x = parent then [a.nextIndex] else [] } := by
  rw [get?_attach hroom (parent_ne_nextIndex hroom (.inr hlive))]
  congr 2
  funext node
  split
  · rfl
  · rw [List.append_nil]

theorem Grows.attach (hroom : a.size < 0xFFFFFFFF) (hlive : a.isLive parent = true)
    (hslot : data.slot? = none) : Grows a (Edit.attach parent data a).2 where
  old := by
    intro x node hget
    have hne : x ≠ a.nextIndex := ne_nextIndex hroom (Option.isSome_of_eq_some hget)
    refine ⟨if x = parent then [a.nextIndex] else [], ?_⟩
    rw [get?_attach_below data hroom hlive, if_neg hne, hget]
    rfl
  fresh := by
    intro x c kind hnone hnamed
    unfold slot? data? at hnamed
    rw [get?_attach_below data hroom hlive] at hnamed
    split at hnamed
    · have hfresh : data.slot? = some (c, kind) := hnamed
      rw [hslot] at hfresh
      cases hfresh
    · rw [hnone] at hnamed
      cases hnamed

/-- Below a live node that there is room for, a child is added. -/
theorem grows_addChild (hfits : (Edit.addChild parent data a).2.Fits)
    (hslot : data.slot? = none) : Grows a (Edit.addChild parent data a).2 := by
  rcases hlive : a.live parent with error | node
  · rw [Edit.addChild_of_error data hlive]
    exact .refl a
  · rw [Edit.addChild_of_live data hlive] at hfits ⊢
    exact .attach (room_of_attach hfits) (isLive_of_live hlive) hslot

end Arena

/-! ## A node with another one below it -/

/-- Add a node, and a second one below it, and name the second in the first. -/
def Edit.addPair (parent : NodeIndex) (data inner : NodeData)
    (name : NodeIndex → NodeData → NodeData) : Edit NodeIndex := do
  let index ← addChild parent data
  let child ← addChild index inner
  patch index (name child)
  return index

namespace Arena

variable {a : Arena} {parent : NodeIndex} {data inner : NodeData}
  {name : NodeIndex → NodeData → NodeData}

/-- What adding two nodes leads to below a live node. -/
def pair (a : Arena) (parent : NodeIndex) (data inner : NodeData)
    (name : NodeIndex → NodeData → NodeData) : Arena :=
  let first := (Edit.attach parent data a).2
  (Edit.attach a.nextIndex inner first).2.modify a.nextIndex fun node =>
    { node with data := name first.nextIndex node.data }

/-- Nothing is added at the index of no live node. -/
theorem addPair_of_error {error : TreeError} (h : a.live parent = .error error) :
    Edit.addPair parent data inner name a = (.error error, a) := by
  unfold Edit.addPair
  rw [Attempt.bind_of_error (Edit.addChild_of_error data h)]

/-- Below a live node a first node is always added, and the second one if the index of
the first finds a live node. -/
theorem addPair_apply {node : Node} (h : a.live parent = .ok node) :
    Edit.addPair parent data inner name a =
      match (Edit.attach parent data a).2.live a.nextIndex with
      | .error error => (.error error, (Edit.attach parent data a).2)
      | .ok _ => (.ok a.nextIndex, a.pair parent data inner name) := by
  have hfirst : Edit.addChild parent data a = (.ok a.nextIndex, (Edit.attach parent data a).2) :=
    Edit.addChild_of_live data h
  unfold Edit.addPair
  rw [Attempt.bind_of_ok hfirst, Attempt.bind_apply]
  rcases hnext : (Edit.attach parent data a).2.live a.nextIndex with error | node
  · rw [Edit.addChild_of_error inner hnext]
  · rw [Edit.addChild_of_live inner hnext]
    rfl

/-- It does if there is room for the first node. -/
theorem live_attach_nextIndex (data : NodeData) (hroom : a.size < 0xFFFFFFFF)
    (hlive : a.isLive parent = true) :
    (Edit.attach parent data a).2.live a.nextIndex = .ok (.fresh data parent) := by
  rw [live_eq_ok_iff, get?_attach_below data hroom hlive, if_pos rfl]
  exact ⟨rfl, rfl⟩

/-- Below a live node two nodes are added, if there is room for them. -/
theorem addPair_of_live {node : Node} (h : a.live parent = .ok node)
    (hfits : (Edit.addPair parent data inner name a).2.Fits) :
    a.size + 1 < 0xFFFFFFFF ∧
      Edit.addPair parent data inner name a =
        (.ok a.nextIndex, a.pair parent data inner name) := by
  rw [addPair_apply h] at hfits ⊢
  rcases hnext : (Edit.attach parent data a).2.live a.nextIndex with error | first
  · rw [hnext] at hfits
    rw [live_attach_nextIndex data (room_of_attach hfits) (isLive_of_live h)] at hnext
    cases hnext
  · rw [hnext] at hfits
    have hsize : (a.pair parent data inner name).size ≤ 0xFFFFFFFF := hfits
    unfold pair at hsize
    rw [size_modify, size_attach, size_attach] at hsize
    exact ⟨by omega, rfl⟩

/-- The two nodes are in the next two slots. -/
theorem get?_pair (data inner : NodeData) (name : NodeIndex → NodeData → NodeData)
    (hroom : a.size + 1 < 0xFFFFFFFF) (hlive : a.isLive parent = true) :
    ∃ c : NodeIndex, c.toNat = a.nextIndex.toNat + 1 ∧ a.get? c = none ∧
      ∀ x, (a.pair parent data inner name).get? x =
        if x = a.nextIndex then some ⟨name c data, parent, [c], false⟩
        else if x = c then some (.fresh inner a.nextIndex)
        else (a.get? x).map fun node =>
          { node with children := node.children ++ if x = parent then [a.nextIndex] else [] } := by
  have hroom' : a.size < 0xFFFFFFFF := by omega
  have hfirst := get?_attach_below data hroom' hlive
  have hsize : (Edit.attach parent data a).2.size = a.size + 1 := size_attach a parent data
  have hnext : (Edit.attach parent data a).2.nextIndex.toNat = a.nextIndex.toNat + 1 := by
    rw [toNat_nextIndex (by omega), toNat_nextIndex hroom', hsize]
  have hthere : (Edit.attach parent data a).2.isLive a.nextIndex = true := by
    rw [isLive_iff, hfirst, if_pos rfl]
    exact ⟨_, rfl, rfl⟩
  have hne : (Edit.attach parent data a).2.nextIndex ≠ a.nextIndex := by
    intro habs
    rw [habs] at hnext
    omega
  refine ⟨(Edit.attach parent data a).2.nextIndex, hnext, ?_, fun x => ?_⟩
  · rcases hget : a.get? (Edit.attach parent data a).2.nextIndex with _ | node
    · rfl
    · have hlt := (bounds_of_get? hget).2
      rw [hnext, toNat_nextIndex hroom'] at hlt
      omega
  · unfold pair
    rw [get?_modifyData, get?_attach_below inner (by omega) hthere]
    by_cases hx : x = a.nextIndex
    · rw [if_pos hx, if_neg (hx ▸ hne.symm), hfirst, if_pos hx]
      simp [hx, Node.fresh]
    · rw [if_neg hx]
      by_cases hc : x = (Edit.attach parent data a).2.nextIndex
      · rw [if_pos hc, if_pos hc]
        simp [hx]
      · rw [if_neg hc, if_neg hc, hfirst, if_neg hx]
        rcases a.get? x with _ | node <;> simp [hx]

theorem Grows.addPair (hfits : (Edit.addPair parent data inner name a).2.Fits)
    (hname : ∀ c, (name c data).slot? = some (c, inner.kind)) (hinner : inner.slot? = none) :
    Grows a (Edit.addPair parent data inner name a).2 := by
  rcases hlive : a.live parent with error | node
  · rw [addPair_of_error hlive]
    exact .refl a
  obtain ⟨hroom, heq⟩ := addPair_of_live hlive hfits
  rw [heq]
  obtain ⟨c, hc, hnew, hget⟩ := get?_pair data inner name hroom (isLive_of_live hlive)
  have hroom' : a.size < 0xFFFFFFFF := by omega
  have hself := hget a.nextIndex
  rw [if_pos rfl] at hself
  have hne : c ≠ a.nextIndex := by
    rintro rfl
    omega
  have hchild := hget c
  rw [if_neg hne, if_pos rfl] at hchild
  constructor
  · intro x node hx
    have hthere : (a.get? x).isSome := Option.isSome_of_eq_some hx
    have hxc : x ≠ c := by
      rintro rfl
      rw [hnew] at hx
      cases hx
    refine ⟨if x = parent then [a.nextIndex] else [], ?_⟩
    rw [hget, if_neg (ne_nextIndex hroom' hthere), if_neg hxc, hx]
    rfl
  · intro x c' kind hnone hslot
    unfold slot? data? at hslot
    rw [hget, hnone] at hslot
    split at hslot
    · -- The first of the two nodes names the second.
      rename_i hx
      have hnamed : (name c data).slot? = some (c', kind) := hslot
      rw [hname] at hnamed
      cases hnamed
      subst hx
      refine ⟨hnew, hc, ?_, ?_, ?_⟩
      · rw [children_of_get? hself]
        exact List.mem_cons_self
      · unfold kind?
        rw [hchild]
        rfl
      · rw [parent?_of_get? hchild]
        exact toOption_eq_some_iff.mpr ⟨rfl, nextIndex_ne_none hroom'⟩
    · split at hslot
      · have hnamed : inner.slot? = some (c', kind) := hslot
        rw [hinner] at hnamed
        cases hnamed
      · cases hslot

/-! ## All builders -/

/-- Building adds nodes, and nothing else. -/
theorem Builder.grows (builder : Builder) (a : Arena)
    (hfits : (builder.operation.apply a).Fits) : Grows a (builder.operation.apply a) := by
  cases builder with
  | identifier parent name => exact grows_addChild hfits rfl
  | attributeSection parent target => exact grows_addChild hfits rfl
  | attributeUse sectionIndex typeName =>
      replace hfits : (Edit.addAttribute sectionIndex typeName a).2.Fits := hfits
      show Grows a (Edit.addAttribute sectionIndex typeName a).2
      unfold Edit.addAttribute at hfits ⊢
      rw [Attempt.bind_apply, Edit.liveOfKind_apply] at hfits ⊢
      rcases hsection : a.liveOfKind sectionIndex .attributeSection with error | node
      · exact .refl a
      · rw [hsection] at hfits
        exact .addPair hfits (fun c => rfl) rfl
  | argument attributeIndex value =>
      replace hfits : (Edit.addArgument attributeIndex value a).2.Fits := hfits
      show Grows a (Edit.addArgument attributeIndex value a).2
      unfold Edit.addArgument at hfits ⊢
      rw [Attempt.bind_apply, Edit.liveOfKind_apply] at hfits ⊢
      rcases hattribute : a.liveOfKind attributeIndex .attributeUse with error | node
      · exact .refl a
      · rw [hattribute] at hfits
        exact grows_addChild hfits rfl
  | typeDeclaration parent kind name => exact .addPair hfits (fun c => rfl) rfl
  | namespaceDeclaration parent name => exact .addPair hfits (fun c => rfl) rfl
  | other parent label => exact grows_addChild hfits rfl

end Arena

/-! ## Trees that are only built -/

namespace SyntaxTree

/-- Build on a tree. -/
def grow (tree : SyntaxTree) (builders : List Arena.Builder) : SyntaxTree :=
  builders.foldl (fun tree builder =>
    { tree with arena := builder.operation.apply tree.arena }) tree

theorem reachable_new : new.arena.Reachable :=
  .step (.addRoot .compilationUnit) .empty

theorem reachable_grow {tree : SyntaxTree} (h : tree.arena.Reachable)
    (builders : List Arena.Builder) : (tree.grow builders).arena.Reachable := by
  induction builders generalizing tree with
  | nil => exact h
  | cons builder rest ih => exact ih (.step builder.operation h)

theorem size_le_grow (tree : SyntaxTree) (builders : List Arena.Builder) :
    tree.arena.size ≤ (tree.grow builders).arena.size := by
  induction builders generalizing tree with
  | nil => exact Nat.le_refl _
  | cons builder rest ih =>
      have hstep := (Edit.along_operation Arena.covers_keepsLinks builder.operation tree.arena).1
      exact Nat.le_trans hstep (ih { tree with arena := builder.operation.apply tree.arena })

end SyntaxTree

end Decompiled
