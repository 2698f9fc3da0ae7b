import Decompiled.Proofs.Arena.Refusals

/-!
# Annotating by a stale index

A definition is recorded for a live type declaration only, and any other index is
refused for what is wrong with it. The name of an attribute is recorded at the
reference that the attribute holds, and that there is one is all that is looked at.
So an index gets the answer that fits it only if it names a live node, and not an
attribute that holds no reference.

* `SyntaxTree.annotateTypeDeclaration_eq_error_iff`: refusals for declarations.
* `SyntaxTree.annotateAttribute_of_ref`, `SyntaxTree.annotateAttribute_of_no_ref`:
  the two outcomes for attributes.
* `SyntaxTree.annotateAttribute_outcome`: when refusals for attributes are like those
  for declarations.
-/

namespace Decompiled.SyntaxTree

variable {tree : SyntaxTree} {i t : NodeIndex} {error : TreeError} {fullName : String}

/-- A definition is refused for the reasons that any request is that wants a live
node of a kind. -/
theorem annotateTypeDeclaration_eq_error_iff {definition : Definition} :
    (annotateTypeDeclaration i definition tree).1 = .error error ↔
      tree.arena.Refuses i (some .typeDeclaration) error := by
  rw [← Arena.wantedNode_eq_error_iff, annotateTypeDeclaration_apply]
  show _ ↔ tree.arena.liveOfKind i .typeDeclaration = .error error
  rcases tree.arena.liveOfKind i .typeDeclaration with refusal | node <;> simp

/-- An attribute that holds a reference is annotated there, also when it has been
removed. -/
theorem annotateAttribute_of_ref (hdata : tree.arena.data? i = some (.attributeUse t))
    (hsome : t ≠ .none) : annotateAttribute i fullName tree =
      (.ok (), { tree with annotations := tree.annotations.setType t fullName }) := by
  unfold annotateAttribute
  rw [Arena.attributeTypeRef?_iff.mpr ⟨hdata, hsome⟩]

/-- Any other index is refused for the kind of its node, and one without a slot as if
it had a node of no particular kind. -/
theorem annotateAttribute_of_no_ref
    (hnone : ∀ t, tree.arena.data? i = some (.attributeUse t) → t = .none) :
    annotateAttribute i fullName tree =
      (.error (.kindMismatch i .attributeUse ((tree.arena.kind? i).getD .other)), tree) := by
  have habsent : tree.arena.attributeTypeRef? i = none := by
    rw [Option.eq_none_iff_forall_ne_some]
    intro t href
    obtain ⟨hdata, hsome⟩ := Arena.attributeTypeRef?_iff.mp href
    exact hsome (hnone t hdata)
  unfold annotateAttribute
  rw [habsent]

/-- A live node is refused exactly if it is of another kind than is wanted. -/
theorem refuses_of_isLive {wanted kind : NodeKind} (hlive : tree.arena.isLive i = true)
    (hkind : tree.arena.kind? i = some kind) :
    tree.arena.Refuses i (some wanted) error ↔
      kind ≠ wanted ∧ error = .kindMismatch i wanted kind := by
  constructor
  · intro h
    cases h with
    | absent hout =>
        have hthere := Arena.isSome_get?_of_isLive hlive
        rw [Arena.get?_eq_none_iff.mpr hout] at hthere
        cases hthere
    | removed hgone =>
        rw [(Arena.removed_iff.mp hgone).2] at hlive
        cases hlive
    | otherKind _ hfound hne =>
        rw [hkind] at hfound
        cases hfound
        exact ⟨hne, rfl⟩
  · rintro ⟨hne, rfl⟩
    exact .otherKind hlive hkind hne

/-- Whatever is not live is refused as absent or as removed. -/
theorem exists_refuses_of_not_live (wanted : NodeKind) (hdead : tree.arena.isLive i = false) :
    ∃ error, tree.arena.Refuses i (some wanted) error ∧
      ∀ expected found, error ≠ .kindMismatch i expected found := by
  rcases hget : tree.arena.get? i with _ | node
  · refine ⟨_, .absent (Arena.get?_eq_none_iff.mp hget), fun _ _ habs => ?_⟩
    cases habs
  · refine ⟨_, .removed (Arena.removed_iff.mpr ⟨?_, hdead⟩), fun _ _ habs => ?_⟩
    · exact Option.isSome_of_eq_some hget
    · cases habs

/-- If the errors for an attribute are those of a refusal, then the index names a
live node: the only error that comes up names a kind. -/
theorem isLive_of_agree (hagree : ∀ error, (annotateAttribute i fullName tree).1 = .error error ↔
    tree.arena.Refuses i (some .attributeUse) error) : tree.arena.isLive i = true := by
  rcases hlive : tree.arena.isLive i with _ | _
  · obtain ⟨error, hrefused, hother⟩ :=
      exists_refuses_of_not_live .attributeUse hlive
    have herror := (hagree error).mpr hrefused
    by_cases href : ∃ t, tree.arena.data? i = some (.attributeUse t) ∧ t ≠ .none
    · obtain ⟨t, hdata, hsome⟩ := href
      rw [annotateAttribute_of_ref hdata hsome] at herror
      cases herror
    · rw [annotateAttribute_of_no_ref fun t hdata =>
        Classical.not_not.mp fun hsome => href ⟨t, hdata, hsome⟩] at herror
      exact absurd (Except.error.inj herror).symm (hother _ _)
  · rfl

/-- A live node is refused as it should be, unless it is an attribute that holds no
reference, which is refused for being an attribute. -/
theorem annotateAttribute_eq_error_iff (hlive : tree.arena.isLive i = true)
    (hraw : tree.arena.data? i ≠ some (.attributeUse .none)) :
    (annotateAttribute i fullName tree).1 = .error error ↔
      tree.arena.Refuses i (some .attributeUse) error := by
  obtain ⟨node, hget, -⟩ := Arena.isLive_iff.mp hlive
  have hdata := Arena.data?_of_get? hget
  have hkind : tree.arena.kind? i = some node.kind := congrArg (Option.map Node.kind) hget
  rw [refuses_of_isLive hlive hkind]
  by_cases hattribute : node.kind = .attributeUse
  · obtain ⟨t, hslot⟩ :=
      Arena.exists_slot_of_attributeUse (hkind.trans (congrArg some hattribute))
    have ht := Arena.slot?_eq_typeReference_iff.mp hslot
    have hsome : t ≠ .none := fun h => hraw (by rw [ht, h])
    rw [annotateAttribute_of_ref ht hsome]
    simp [hattribute]
  · have hnone : ∀ t, tree.arena.data? i = some (.attributeUse t) → t = .none := by
      intro t ht
      have hfound : some node.kind = some .attributeUse := by
        rw [← hkind, Arena.kind?_eq, ht]
        rfl
      exact absurd (Option.some.inj hfound) hattribute
    rw [annotateAttribute_of_no_ref hnone, hkind]
    simp [hattribute, eq_comm]

/-- What comes of annotating an attribute, for each index of any tree. An attribute
that holds a reference is annotated, live or removed. All else is refused for its
kind, which is no kind of a node where there is none, and the tree stays as it is.
Refusals are those for a live attribute exactly if the index names a live node and
not an attribute without a reference; for declarations they always are. -/
theorem annotateAttribute_outcome (tree : SyntaxTree) (i : NodeIndex) (fullName : String) :
    (∀ t, tree.arena.data? i = some (.attributeUse t) → t ≠ .none →
      annotateAttribute i fullName tree =
        (.ok (), { tree with annotations := tree.annotations.setType t fullName })) ∧
    ((∀ t, tree.arena.data? i = some (.attributeUse t) → t = .none) →
      annotateAttribute i fullName tree =
        (.error (.kindMismatch i .attributeUse ((tree.arena.kind? i).getD .other)), tree)) ∧
    ((∀ error, (annotateAttribute i fullName tree).1 = .error error ↔
        tree.arena.Refuses i (some .attributeUse) error) ↔
      tree.arena.isLive i = true ∧ tree.arena.data? i ≠ some (.attributeUse .none)) ∧
    ∀ definition error, (annotateTypeDeclaration i definition tree).1 = .error error ↔
      tree.arena.Refuses i (some .typeDeclaration) error := by
  refine ⟨fun t => annotateAttribute_of_ref, annotateAttribute_of_no_ref,
    ⟨fun hagree => ⟨isLive_of_agree hagree, fun hraw => ?_⟩, fun ⟨hlive, hraw⟩ error =>
      annotateAttribute_eq_error_iff hlive hraw⟩,
    fun definition error => annotateTypeDeclaration_eq_error_iff⟩
  · have hkind : tree.arena.kind? i = some .attributeUse := by
      rw [Arena.kind?_eq, hraw]
      rfl
    have herror : (annotateAttribute i fullName tree).1 =
        .error (.kindMismatch i .attributeUse ((tree.arena.kind? i).getD .other)) := by
      rw [annotateAttribute_of_no_ref fun t hdata => ?_]
      cases hraw.symm.trans hdata
      rfl
    obtain ⟨hne, -⟩ :=
      (refuses_of_isLive (isLive_of_agree hagree) hkind).mp ((hagree _).mp herror)
    exact hne rfl

/-- A unit whose section lost its attribute and got one that holds no reference. -/
def staleUnit : SyntaxTree where
  arena := Arena.build
    [.addRoot .compilationUnit, .addAttributeSection ⟨0⟩ .assembly, .addAttribute ⟨1⟩ "A",
      .remove ⟨2⟩, .addChild ⟨1⟩ (.attributeUse .none)]
  root := ⟨0⟩
  annotations := .empty

/-- The attribute that is gone gets a name, a slot that never was is taken for a node
of another kind, and the attribute without a reference is refused for being one. -/
theorem staleUnit_misjudged :
    staleUnit.arena.Reachable ∧
      (staleUnit.arena.Refuses ⟨2⟩ (some .attributeUse) (.removed ⟨2⟩) ∧
        annotateAttribute ⟨2⟩ "B" staleUnit =
          (.ok (), { staleUnit with annotations := ⟨[(⟨3⟩, "B")], []⟩ })) ∧
      (staleUnit.arena.Refuses ⟨9⟩ (some .attributeUse) (.invalidIndex ⟨9⟩) ∧
        annotateAttribute ⟨9⟩ "B" staleUnit =
          (.error (.kindMismatch ⟨9⟩ .attributeUse .other), staleUnit)) ∧
      (staleUnit.arena.isLive ⟨4⟩ = true ∧ annotateAttribute ⟨4⟩ "B" staleUnit =
        (.error (.kindMismatch ⟨4⟩ .attributeUse .attributeUse), staleUnit)) := by
  have hraw : staleUnit.arena.data? ⟨4⟩ = some (.attributeUse .none) := by decide
  refine ⟨Arena.reachable_build _,
    ⟨.removed (Arena.removed_iff.mpr (by decide)),
      annotateAttribute_of_ref (by decide) (by decide)⟩,
    ⟨.absent (.inr (by decide)), annotateAttribute_of_no_ref fun t ht => ?_⟩,
    by decide, annotateAttribute_of_no_ref fun t ht => ?_⟩
  · have habsent : staleUnit.arena.data? ⟨9⟩ = none := by decide
    cases habsent.symm.trans ht
  · cases hraw.symm.trans ht
    rfl

end Decompiled.SyntaxTree
