import Decompiled.Proofs.Arena.Cut
import Decompiled.Proofs.Steps

/-!
# Arenas that can be built

An arena is built from the empty one by operations, each of which may fail and
may come at any moment. All that is built in this way is well linked, as long
as each slot has an index.

* `Arena.Operation`: what can be done to an arena.
* `Edit.Covers`: the changes that all operations are made of.
* `Arena.Reachable.wellLinked`: links agree in each arena that can be built.
* `Arena.reachable_links_agree`: the same, spelled out, with what follows for
  removals.
-/

namespace Decompiled

namespace Arena

variable {a b : Arena}

/-- The operations on an arena. -/
inductive Operation where
  | addRoot (data : NodeData)
  | addChild (parent : NodeIndex) (data : NodeData)
  | addIdentifier (parent : NodeIndex) (name : String)
  | addAttributeSection (parent : NodeIndex) (target : AttributeTarget)
  | addAttribute (sectionIndex : NodeIndex) (typeName : String)
  | addArgument (attributeIndex : NodeIndex) (argument : Argument)
  | addTypeDeclaration (parent : NodeIndex) (kind : TypeKind) (name : String)
  | addNamespace (parent : NodeIndex) (name : String)
  | addOther (parent : NodeIndex) (label : String)
  | setIdentifierName (index : NodeIndex) (name : String)
  | replaceData (index : NodeIndex) (data : NodeData)
  | remove (index : NodeIndex)

/-- The arena that an operation leaves, whether it succeeds or fails. -/
def Operation.apply : Operation → Arena → Arena
  | addRoot data, a => (Edit.addRoot data a).2
  | addChild parent data, a => (Edit.addChild parent data a).2
  | addIdentifier parent name, a => (Edit.addIdentifier parent name a).2
  | addAttributeSection parent target, a => (Edit.addAttributeSection parent target a).2
  | addAttribute sectionIndex typeName, a => (Edit.addAttribute sectionIndex typeName a).2
  | addArgument attributeIndex argument, a => (Edit.addArgument attributeIndex argument a).2
  | addTypeDeclaration parent kind name, a => (Edit.addTypeDeclaration parent kind name a).2
  | addNamespace parent name, a => (Edit.addNamespace parent name a).2
  | addOther parent label, a => (Edit.addOther parent label a).2
  | setIdentifierName index name, a => (Edit.setIdentifierName index name a).2
  | replaceData index data, a => (Edit.replaceData index data a).2
  | remove index, a => (Edit.remove index a).2

/-- The arenas that can be built from the empty one. -/
inductive Reachable : Arena → Prop
  | empty : Reachable .empty
  | step {a : Arena} (operation : Operation) : Reachable a → Reachable (operation.apply a)

/-- The arena built by operations one after the other. -/
def build (operations : List Operation) : Arena :=
  operations.foldl (fun a operation => operation.apply a) .empty

theorem reachable_build (operations : List Operation) : (build operations).Reachable := by
  have key : ∀ a : Arena, a.Reachable →
      (operations.foldl (fun a operation => operation.apply a) a).Reachable := by
    induction operations with
    | nil => exact fun a ha => ha
    | cons operation rest ih => exact fun a ha => ih _ (.step operation ha)
  exact key _ .empty

/-! ## What every edit is made of -/

end Arena

namespace Edit

open Arena Attempt

/-- What a relation between arenas has to hold along for it to hold along every
operation: other data for a node, a new node below a live one or below none, and
the removal of a node. -/
structure Covers (R : Arena → Arena → Prop) : Prop where
  patch : ∀ i f, (patch i f).Along R
  attach : ∀ {a : Arena} {parent : NodeIndex} (data : NodeData),
    parent = .none ∨ a.isLive parent = true → R a (attach parent data a).2
  remove : ∀ i, (remove i).Along R

section Covered

variable {R : Arena → Arena → Prop} [Std.Refl R] (h : Covers R)

include h

theorem along_addChild (parent : NodeIndex) (data : NodeData) :
    (addChild parent data).Along R := by
  intro a
  rcases hlive : a.live parent with error | node
  · rw [addChild_of_error data hlive]
    exact Std.Refl.refl a
  · rw [addChild_of_live data hlive]
    exact h.attach data (.inr (isLive_of_live hlive))

variable [IsTrans Arena R]

theorem along_addAttribute (sectionIndex : NodeIndex) (typeName : String) :
    (addAttribute sectionIndex typeName).Along R :=
  .bind (.ask _) fun _ =>
    .bind (along_addChild h _ _) fun index =>
      .bind (along_addChild h index _) fun _ =>
        .bind (h.patch index _) fun _ => .pure index

theorem along_addArgument (attributeIndex : NodeIndex) (argument : Argument) :
    (addArgument attributeIndex argument).Along R :=
  .bind (.ask _) fun _ => along_addChild h _ _

theorem along_addTypeDeclaration (parent : NodeIndex) (kind : TypeKind) (name : String) :
    (addTypeDeclaration parent kind name).Along R :=
  .bind (along_addChild h _ _) fun index =>
    .bind (along_addChild h index _) fun _ =>
      .bind (h.patch index _) fun _ => .pure index

theorem along_addNamespace (parent : NodeIndex) (name : String) :
    (addNamespace parent name).Along R :=
  .bind (along_addChild h _ _) fun index =>
    .bind (along_addChild h index _) fun _ =>
      .bind (h.patch index _) fun _ => .pure index

theorem along_setIdentifierName (index : NodeIndex) (name : String) :
    (setIdentifierName index name).Along R :=
  .bind (.ask _) fun _ => h.patch index _

theorem along_replaceData (index : NodeIndex) (data : NodeData) :
    (replaceData index data).Along R :=
  .bind (.view _) fun found => .bind (h.patch index _) fun _ => .pure found

/-- A relation that covers the changes covers every operation. -/
theorem along_operation (operation : Operation) (a : Arena) : R a (operation.apply a) := by
  cases operation with
  | addRoot data => exact h.attach data (.inl rfl)
  | addChild parent data => exact along_addChild h parent data a
  | addIdentifier parent name => exact along_addChild h parent _ a
  | addAttributeSection parent target => exact along_addChild h parent _ a
  | addAttribute sectionIndex typeName => exact along_addAttribute h _ _ a
  | addArgument attributeIndex argument => exact along_addArgument h _ _ a
  | addTypeDeclaration parent kind name => exact along_addTypeDeclaration h _ _ _ a
  | addNamespace parent name => exact along_addNamespace h _ _ a
  | addOther parent label => exact along_addChild h parent _ a
  | setIdentifierName index name => exact along_setIdentifierName h _ _ a
  | replaceData index data => exact along_replaceData h _ _ a
  | remove index => exact h.remove index a

end Covered

end Edit

namespace Arena

variable {a b : Arena}

/-! ## Links stay in agreement -/

/-- From `a` to `b` no slot is lost and the links stay in agreement while there
is an index for each slot. -/
def KeepsLinks (a b : Arena) : Prop :=
  a.size ≤ b.size ∧ (b.Fits → a.WellLinked → b.WellLinked)

instance : Std.Refl KeepsLinks := ⟨fun _ => ⟨Nat.le_refl _, fun _ h => h⟩⟩

/-- Slots are never lost, so an arena that fits was one that fits before. -/
instance : IsTrans Arena KeepsLinks where
  trans := by
    rintro a b c ⟨hab, hlinksab⟩ ⟨hbc, hlinksbc⟩
    refine ⟨Nat.le_trans hab hbc, fun hfits h => hlinksbc hfits (hlinksab ?_ h)⟩
    exact Nat.le_trans hbc hfits

/-- When a node has been attached to an arena that fits afterwards, there was
room for it. -/
theorem room_of_attach {parent : NodeIndex} {data : NodeData}
    (hfits : (Edit.attach parent data a).2.Fits) : a.size < 0xFFFFFFFF := by
  have hsize : (Edit.attach parent data a).2.size ≤ 0xFFFFFFFF := hfits
  rw [size_attach] at hsize
  omega

theorem covers_keepsLinks : Edit.Covers KeepsLinks where
  patch := by
    intro i f a
    refine ⟨?_, fun _ h => h.modifyData i f⟩
    exact Nat.le_of_eq (size_modify a i _).symm
  attach := by
    intro a parent data hparent
    refine ⟨?_, fun hfits h => h.attach (room_of_attach hfits) hparent⟩
    rw [size_attach]
    omega
  remove := by
    intro i a
    refine ⟨?_, fun _ h => h.cut i⟩
    exact Nat.le_of_eq (size_cut a i).symm

/-- Links agree in each arena that can be built and has an index for each
slot. -/
theorem Reachable.wellLinked (h : a.Reachable) (hfits : a.Fits) : a.WellLinked := by
  have hall : KeepsLinks .empty a := by
    induction h with
    | empty => exact Std.Refl.refl _
    | @step b operation _ ih =>
        have hkeeps := Edit.along_operation covers_keepsLinks operation b
        exact trans_of KeepsLinks (ih (Nat.le_trans hkeeps.1 hfits)) hkeeps
  exact hall.2 hfits wellLinked_empty

/-- In each arena that can be built, child lists ascend and hold younger slots
than their owner's; a node is listed exactly by its parent, once, and by nobody
else; and it is removed together with its parent. So no live node lists a
removed one, and no removal finds its node missing from a list. -/
theorem reachable_links_agree (h : a.Reachable) (hfits : a.Fits) :
    (∀ p, (a.children p).Pairwise fun x y => x.toNat < y.toNat) ∧
    (∀ p c, c ∈ a.children p → p.toNat < c.toNat ∧ (a.get? c).isSome) ∧
    (∀ p c, c ∈ a.children p ↔
      p ≠ .none ∧ ∃ node, a.get? c = some node ∧ node.parent = p) ∧
    (∀ p q c, c ∈ a.children p → c ∈ a.children q → p = q) ∧
    (∀ p, (a.children p).Nodup) ∧
    (∀ c node, a.get? c = some node → node.parent ≠ .none →
      ∃ above, a.get? node.parent = some above ∧ above.removed = node.removed) ∧
    (∀ p c, a.isLive p = true → c ∈ a.children p → a.isLive c = true) ∧
    (∀ index child parent, (Edit.remove index a).1 ≠ .error (.notAChild child parent)) := by
  have hlinks := h.wellLinked hfits
  refine ⟨hlinks.ascending, ?_, ?_, ?_, hlinks.nodup, ?_, ?_, ?_⟩
  · exact fun p c hc => ⟨hlinks.younger hc, hlinks.child_there hc⟩
  · exact fun p c => hlinks.listed_iff.trans parent?_eq_some_iff
  · exact fun p q c => hlinks.parent_unique
  · intro c node hget hne
    have hp : a.parent? c = some node.parent := parent?_eq_some_iff.mpr ⟨hne, node, hget, rfl⟩
    have htogether := hlinks.together hp
    obtain ⟨above, habove⟩ := hlinks.exists_parent hp
    rw [isLive_of_get? hget, isLive_of_get? habove] at htogether
    exact ⟨above, habove, by simpa using htogether.symm⟩
  · exact fun p c => hlinks.child_live
  · intro index child parent
    rcases hlive : a.isLive index with _ | _
    · rw [Edit.remove_of_not_live hlive]
      split <;> simp
    · rcases hp : a.parent? index with _ | p
      · rw [Edit.remove_of_parentless hlive hp]
        simp
      · rw [Edit.remove_of_parent hlinks hlive hp]
        simp

/-- A namespace with two types is removed, after one of the types and before an
attempt to add a third. The links agree in what is left of it. -/
theorem links_agree_after_removals :
    let a := build
      [.addRoot .compilationUnit, .addNamespace ⟨0⟩ "N",
        .addTypeDeclaration ⟨1⟩ .classType "A", .addTypeDeclaration ⟨1⟩ .classType "B",
        .remove ⟨3⟩, .remove ⟨1⟩, .addTypeDeclaration ⟨1⟩ .classType "C",
        .replaceData ⟨5⟩ .compilationUnit]
    a.Fits ∧ a.size = 7 ∧ a.children ⟨0⟩ = [] ∧ a.children ⟨1⟩ = [⟨2⟩, ⟨5⟩] ∧
      ∀ c node, a.get? c = some node → node.parent ≠ .none →
        ∃ above, a.get? node.parent = some above ∧ above.removed = node.removed := by
  refine ⟨by decide, by decide, by decide, by decide, ?_⟩
  exact (reachable_links_agree (reachable_build _) (by decide)).2.2.2.2.2.1

end Arena

end Decompiled
