import Decompiled.Proofs.Arena.Builders
import Decompiled.Proofs.Arena.Thinning

/-!
# Requests that are refused

Whoever edits a tree names an index. Every request that adds nodes or changes what
is at an index wants a live node there, and some want it to be of a kind. A request
that is refused leaves no trace, even where it would have taken several steps.

* `Arena.Refuses`: why an index is refused, and with which error.
* `SyntaxTree.Request`: the requests.
* `Arena.AddsPair`: what a request for two nodes adds.
* `SyntaxTree.requests_all_or_nothing`: a request is carried out in full or refused
  for its index.
-/

namespace Decompiled

/-! ## What builders ask for -/

namespace Arena.Builder

/-- The index below which a builder adds. -/
def parent : Builder → NodeIndex
  | identifier parent _ => parent
  | attributeSection parent _ => parent
  | attributeUse sectionIndex _ => sectionIndex
  | argument attributeIndex _ => attributeIndex
  | typeDeclaration parent _ _ => parent
  | namespaceDeclaration parent _ => parent
  | other parent _ => parent

/-- The kind of node that a builder wants there. -/
def wanted? : Builder → Option NodeKind
  | attributeUse _ _ => some .attributeSection
  | argument _ _ => some .attributeUse
  | _ => none

/-- What the nodes of a builder that adds two carry, the first one by the index of
the second. -/
def pair? : Builder → Option ((NodeIndex → NodeData) × NodeData)
  | attributeUse _ typeName => some (.attributeUse, .typeReference typeName)
  | typeDeclaration _ kind name => some (.typeDeclaration kind, .identifier name)
  | namespaceDeclaration _ name => some (.namespaceDeclaration, .identifier name)
  | _ => none

/-- A builder as an edit, which answers with the index of the node it adds, or of
the first one. -/
def edit : Builder → Edit NodeIndex
  | identifier parent name => Edit.addIdentifier parent name
  | attributeSection parent target => Edit.addAttributeSection parent target
  | attributeUse sectionIndex typeName => Edit.addAttribute sectionIndex typeName
  | argument attributeIndex value => Edit.addArgument attributeIndex value
  | typeDeclaration parent kind name => Edit.addTypeDeclaration parent kind name
  | namespaceDeclaration parent name => Edit.addNamespace parent name
  | other parent label => Edit.addOther parent label

end Arena.Builder

namespace Arena

variable {a : Arena} {i : NodeIndex} {wanted? : Option NodeKind} {error : TreeError} {node : Node}

/-! ## Refusals -/

/-- Why a request at an index is refused that wants a live node there, of a kind if
it names one. -/
inductive Refuses (a : Arena) (i : NodeIndex) : Option NodeKind → TreeError → Prop
  /-- There is no such slot. -/
  | absent {wanted? : Option NodeKind} :
      i = .none ∨ a.size ≤ i.toNat → Refuses a i wanted? (.invalidIndex i)
  | removed {wanted? : Option NodeKind} : a.Removed i → Refuses a i wanted? (.removed i)
  /-- The node is live and of another kind, which the error names. -/
  | otherKind {wanted found : NodeKind} :
      a.isLive i = true → a.kind? i = some found → found ≠ wanted →
        Refuses a i (some wanted) (.kindMismatch i wanted found)

/-- The live node that a request wants. -/
def wantedNode (a : Arena) (i : NodeIndex) : Option NodeKind → Except TreeError Node
  | none => a.live i
  | some kind => a.liveOfKind i kind

theorem live_of_absent (h : a.get? i = none) : a.live i = .error (.invalidIndex i) := by
  unfold live
  rw [h]

theorem live_of_removed (h : a.Removed i) : a.live i = .error (.removed i) := by
  obtain ⟨node, hget, hremoved⟩ := h
  unfold live
  rw [hget]
  exact if_pos hremoved

theorem wantedNode_of_error (h : a.live i = .error error) :
    a.wantedNode i wanted? = .error error := by
  cases wanted? with
  | none => exact h
  | some kind =>
      show a.liveOfKind i kind = .error error
      unfold liveOfKind
      rw [h]

theorem live_of_wantedNode (h : a.wantedNode i wanted? = .ok node) : a.live i = .ok node := by
  cases wanted? with
  | none => exact h
  | some kind => exact (liveOfKind_eq_ok_iff.mp h).1

/-- A request does not get its node exactly if it is refused. -/
theorem wantedNode_eq_error_iff :
    a.wantedNode i wanted? = .error error ↔ a.Refuses i wanted? error := by
  constructor
  · intro h
    rcases hget : a.get? i with _ | node
    · rw [wantedNode_of_error (live_of_absent hget)] at h
      cases h
      exact .absent (get?_eq_none_iff.mp hget)
    rcases hremoved : node.removed with _ | _
    · have hlive : a.live i = .ok node := live_eq_ok_iff.mpr ⟨hget, hremoved⟩
      cases wanted? with
      | none =>
          simp only [wantedNode, hlive] at h
          cases h
      | some kind =>
          simp only [wantedNode, liveOfKind, hlive] at h
          split at h
          · cases h
          · rename_i hkind
            cases h
            exact .otherKind (isLive_of_live hlive) (congrArg (Option.map Node.kind) hget) hkind
    · have hgone : a.Removed i := ⟨node, hget, hremoved⟩
      rw [wantedNode_of_error (live_of_removed hgone)] at h
      cases h
      exact .removed hgone
  · intro h
    cases h with
    | absent hout => exact wantedNode_of_error (live_of_absent (get?_eq_none_iff.mpr hout))
    | removed hgone => exact wantedNode_of_error (live_of_removed hgone)
    | @otherKind kind found hlive hkind hne =>
        obtain ⟨node, hget, hremoved⟩ := isLive_iff.mp hlive
        unfold kind? at hkind
        rw [hget, Option.map_some, Option.some.injEq] at hkind
        simp only [wantedNode, liveOfKind, live_eq_ok_iff.mpr ⟨hget, hremoved⟩, hkind, if_neg hne]

/-! ## Builders that are refused or not -/

namespace Builder

variable {builder : Builder}

theorem edit_of_error (h : a.wantedNode builder.parent builder.wanted? = .error error) :
    builder.edit a = (.error error, a) := by
  cases builder with
  | identifier parent name => exact Edit.addChild_of_error _ h
  | attributeSection parent target => exact Edit.addChild_of_error _ h
  | attributeUse sectionIndex typeName => exact Attempt.bind_of_error (congrArg (·, a) h)
  | argument attributeIndex value => exact Attempt.bind_of_error (congrArg (·, a) h)
  | typeDeclaration parent kind name => exact addPair_of_error h
  | namespaceDeclaration parent name => exact addPair_of_error h
  | other parent label => exact Edit.addChild_of_error _ h

/-- With the node that it wants, a builder adds a child or a pair. -/
theorem edit_cases (h : a.wantedNode builder.parent builder.wanted? = .ok node) :
    (builder.pair? = none ∧ ∃ data, builder.edit a = Edit.addChild builder.parent data a) ∨
    ∃ data inner name, builder.pair? = some (data, inner) ∧
      (∀ c, name c (data .none) = data c ∧ (data c).slot? = some (c, inner.kind)) ∧
      builder.edit a = Edit.addPair builder.parent (data .none) inner name a := by
  cases builder with
  | identifier parent name => exact .inl ⟨rfl, _, rfl⟩
  | attributeSection parent target => exact .inl ⟨rfl, _, rfl⟩
  | attributeUse sectionIndex typeName =>
      exact .inr ⟨_, _, _, rfl, fun c => ⟨rfl, rfl⟩, Attempt.bind_of_ok (congrArg (·, a) h)⟩
  | argument attributeIndex value => exact .inl ⟨rfl, _, Attempt.bind_of_ok (congrArg (·, a) h)⟩
  | typeDeclaration parent kind name => exact .inr ⟨_, _, _, rfl, fun c => ⟨rfl, rfl⟩, rfl⟩
  | namespaceDeclaration parent name => exact .inr ⟨_, _, _, rfl, fun c => ⟨rfl, rfl⟩, rfl⟩
  | other parent label => exact .inl ⟨rfl, _, rfl⟩

end Builder

/-! ## Two nodes at once -/

/-- `b` is `a` with a node below `parent` in the next slot and, in the slot after
that, one below it which it names. -/
structure AddsPair (a b : Arena) (parent : NodeIndex) (data : NodeIndex → NodeData)
    (inner : NodeData) : Prop where
  size : b.size = a.size + 2
  first : b.get? (.ofCount a.size) =
    some ⟨data (.ofCount (a.size + 1)), parent, [.ofCount (a.size + 1)], false⟩
  second : b.get? (.ofCount (a.size + 1)) = some ⟨inner, .ofCount a.size, [], false⟩
  /-- The first node names the second one where nodes of its kind name a child. -/
  named : b.slot? (.ofCount a.size) = some (.ofCount (a.size + 1), inner.kind)
  old : ∀ x node, a.get? x = some node → b.get? x = some
    { node with
      children := node.children ++ if x = parent then [.ofCount a.size] else [] }

theorem addsPair_pair {parent : NodeIndex} {data : NodeIndex → NodeData} {inner : NodeData}
    {name : NodeIndex → NodeData → NodeData}
    (hname : ∀ c, name c (data .none) = data c ∧ (data c).slot? = some (c, inner.kind))
    (hroom : a.size + 1 < 0xFFFFFFFF) (hlive : a.isLive parent = true) :
    AddsPair a (a.pair parent (data .none) inner name) parent data inner := by
  obtain ⟨c, hc, hnew, hget⟩ := get?_pair (data .none) inner name hroom hlive
  have hfirst : a.nextIndex = .ofCount a.size := rfl
  have hsecond : c = .ofCount (a.size + 1) := by
    rw [← NodeIndex.toNat_inj, hc, toNat_nextIndex (by omega),
      NodeIndex.toNat_ofCount_of_lt (by omega)]
  have hne : c ≠ a.nextIndex := by
    rintro rfl
    omega
  rw [hfirst] at hget hne
  subst hsecond
  have hself := hget (.ofCount a.size)
  rw [if_pos rfl, (hname _).1] at hself
  refine ⟨?_, hself, ?_, ?_, fun x node hx => ?_⟩
  · unfold pair
    rw [size_modify, size_attach, size_attach]
  · rw [hget, if_neg hne, if_pos rfl]
    rfl
  · unfold slot?
    rw [data?_of_get? hself, Option.bind_some, (hname _).2]
  · have hx' : x ≠ .ofCount a.size := ne_nextIndex (by omega) (Option.isSome_of_eq_some hx)
    have hxc : x ≠ .ofCount (a.size + 1) := by
      rintro rfl
      rw [hnew] at hx
      cases hx
    rw [hget, if_neg hx', if_neg hxc, hx]
    rfl

end Arena

/-! ## Requests -/

namespace SyntaxTree

/-- What can be asked for at an index of a tree: a child, what a builder adds, a
name, and a definition. -/
inductive Request where
  | addChild (parent : NodeIndex) (data : NodeData)
  | build (builder : Arena.Builder)
  | rename (index : NodeIndex) (name : String)
  | annotateTypeDeclaration (index : NodeIndex) (definition : Definition)

namespace Request

/-- The index that a request names. -/
def index : Request → NodeIndex
  | addChild parent _ => parent
  | build builder => builder.parent
  | rename index _ => index
  | annotateTypeDeclaration index _ => index

/-- The kind of node that a request wants there. -/
def wanted? : Request → Option NodeKind
  | addChild _ _ => none
  | build builder => builder.wanted?
  | rename _ _ => some .identifier
  | annotateTypeDeclaration _ _ => some .typeDeclaration

/-- Carry out a request. One that adds nodes answers with the index of the first. -/
def perform : Request → TreeEdit (Option NodeIndex)
  | addChild parent data => do return some (← edit (Edit.addChild parent data))
  | build builder => do return some (← edit builder.edit)
  | rename index name => do
      edit (Edit.setIdentifierName index name)
      return none
  | annotateTypeDeclaration index definition => do
      SyntaxTree.annotateTypeDeclaration index definition
      return none

end Request

variable {tree : SyntaxTree} {request : Request} {error : TreeError} {node : Node}

/-- An edit and what is made of its answer. -/
theorem edit_bind_pure {α β : Type} (change : Edit α) (f : α → β) (tree : SyntaxTree) :
    (edit change >>= fun value => pure (f value)) tree =
      ((change tree.arena).1.map f, { tree with arena := (change tree.arena).2 }) := by
  rw [Attempt.bind_apply, edit_apply]
  rcases (change tree.arena).1 with error | value <;> rfl

theorem perform_build (builder : Arena.Builder) (tree : SyntaxTree) :
    (Request.build builder).perform tree =
      ((builder.edit tree.arena).1.map some, { tree with arena := (builder.edit tree.arena).2 }) :=
  edit_bind_pure builder.edit some tree

/-- Without the node that it wants, a request fails and changes nothing. -/
theorem perform_of_error
    (h : tree.arena.wantedNode request.index request.wanted? = .error error) :
    request.perform tree = (.error error, tree) := by
  cases request with
  | addChild parent data =>
      have hwanted : tree.arena.live parent = .error error := h
      refine (edit_bind_pure _ _ tree).trans ?_
      rw [Edit.addChild_of_error data hwanted]
      rfl
  | build builder =>
      rw [perform_build, Arena.Builder.edit_of_error h]
      rfl
  | rename index name =>
      have hwanted : tree.arena.liveOfKind index .identifier = .error error := h
      refine (edit_bind_pure _ _ tree).trans ?_
      rw [Arena.setIdentifierName_apply, hwanted]
      rfl
  | annotateTypeDeclaration index definition =>
      have hwanted : tree.arena.liveOfKind index .typeDeclaration = .error error := h
      refine Attempt.bind_of_error ?_
      rw [annotateTypeDeclaration_apply, hwanted]

/-- A request for two nodes that gets the node it wants adds them. -/
theorem perform_pair {builder : Arena.Builder} {data : NodeIndex → NodeData} {inner : NodeData}
    (h : tree.arena.wantedNode builder.parent builder.wanted? = .ok node)
    (hpair : builder.pair? = some (data, inner))
    (hfits : ((Request.build builder).perform tree).2.arena.Fits) :
    ∃ b, (Request.build builder).perform tree =
        (.ok (some (.ofCount tree.arena.size)), { tree with arena := b }) ∧
      tree.arena.AddsPair b builder.parent data inner := by
  rw [perform_build] at hfits ⊢
  rcases Arena.Builder.edit_cases h with ⟨hnone, -⟩ | ⟨data', inner', name, hpair', hname, hedit⟩
  · rw [hnone] at hpair
    cases hpair
  · rw [hpair] at hpair'
    cases hpair'
    rw [hedit] at hfits ⊢
    have hlive := Arena.live_of_wantedNode h
    obtain ⟨hroom, hadd⟩ := Arena.addPair_of_live hlive hfits
    rw [hadd]
    exact ⟨_, rfl, Arena.addsPair_pair hname hroom (Arena.isLive_of_live hlive)⟩

/-- A request that gets the node it wants is carried out. -/
theorem perform_of_ok (h : tree.arena.wantedNode request.index request.wanted? = .ok node)
    (hfits : (request.perform tree).2.arena.Fits) :
    ∃ answer, (request.perform tree).1 = .ok answer := by
  cases request with
  | addChild parent data =>
      have hwanted : tree.arena.live parent = .ok node := h
      refine ⟨some tree.arena.nextIndex, (congrArg Prod.fst (edit_bind_pure _ _ tree)).trans ?_⟩
      rw [Edit.addChild_of_live data hwanted]
      rfl
  | build builder =>
      rcases Arena.Builder.edit_cases h with ⟨-, data, hedit⟩ | ⟨data, inner, -, hpair, -⟩
      · have hlive : tree.arena.live builder.parent = .ok node := Arena.live_of_wantedNode h
        refine ⟨some tree.arena.nextIndex, ?_⟩
        rw [perform_build, hedit, Edit.addChild_of_live data hlive]
        rfl
      · obtain ⟨b, hperform, -⟩ := perform_pair h hpair hfits
        exact ⟨_, congrArg Prod.fst hperform⟩
  | rename index name =>
      have hwanted : tree.arena.liveOfKind index .identifier = .ok node := h
      refine ⟨none, (congrArg Prod.fst (edit_bind_pure _ _ tree)).trans ?_⟩
      rw [Arena.setIdentifierName_apply, hwanted]
      rfl
  | annotateTypeDeclaration index definition =>
      have hwanted : tree.arena.liveOfKind index .typeDeclaration = .ok node := h
      have hdone : (SyntaxTree.annotateTypeDeclaration index definition tree).1 = .ok () := by
        rw [annotateTypeDeclaration_apply, hwanted]
      exact ⟨none, congrArg Prod.fst (Attempt.bind_of_ok (Prod.ext hdone rfl))⟩

/-- Requests to a tree that has an index for each slot afterwards. A request fails
exactly if its index names no slot, a removed node or, where it wants a kind, a live
node of another kind, and the error says which of these. A request that fails leaves
the tree as it is, its arena and its annotations. One for two nodes that succeeds
adds them in the next two slots, and the first names the second. -/
theorem requests_all_or_nothing (tree : SyntaxTree) (request : Request)
    (hfits : (request.perform tree).2.arena.Fits) :
    (∀ error, (request.perform tree).1 = .error error ↔
      tree.arena.Refuses request.index request.wanted? error) ∧
    (∀ error, (request.perform tree).1 = .error error → (request.perform tree).2 = tree) ∧
    ∀ builder data inner answer, request = .build builder → builder.pair? = some (data, inner) →
      (request.perform tree).1 = .ok answer →
      answer = some (.ofCount tree.arena.size) ∧
      ∃ b, (request.perform tree).2 = { tree with arena := b } ∧
        tree.arena.AddsPair b builder.parent data inner := by
  rcases h : tree.arena.wantedNode request.index request.wanted? with error | node
  · rw [perform_of_error h]
    refine ⟨fun error' => ?_, fun _ _ => rfl, ?_⟩
    · rw [← Arena.wantedNode_eq_error_iff, h]
      simp
    · intro builder data inner answer _ _ habs
      cases habs
  · obtain ⟨answer, hok⟩ := perform_of_ok h hfits
    refine ⟨fun error => ?_, fun error habs => ?_, ?_⟩
    · rw [← Arena.wantedNode_eq_error_iff, h, hok]
      simp
    · rw [hok] at habs
      cases habs
    · rintro builder data inner answer' rfl hpair hanswer
      obtain ⟨b, hperform, hadds⟩ := perform_pair h hpair hfits
      rw [hperform] at hanswer ⊢
      cases hanswer
      exact ⟨rfl, b, rfl, hadds⟩

/-- A unit with a section of attributes, after its namespace has been removed. -/
def sectionAlone : SyntaxTree where
  arena := Arena.build
    [.addRoot .compilationUnit, .addNamespace ⟨0⟩ "N", .addAttributeSection ⟨0⟩ .assembly,
      .remove ⟨1⟩]
  root := ⟨0⟩
  annotations := .empty

/-- An attribute goes below the section, with a reference in the slot after it. The
unit refuses it, and the removed namespace refuses a type. -/
theorem requests_to_sectionAlone :
    (Request.build (.attributeUse ⟨0⟩ "A")).perform sectionAlone =
      (.error (.kindMismatch ⟨0⟩ .attributeSection .compilationUnit), sectionAlone) ∧
    (Request.build (.typeDeclaration ⟨1⟩ .classType "C")).perform sectionAlone =
      (.error (.removed ⟨1⟩), sectionAlone) ∧
    ((Request.build (.attributeUse ⟨3⟩ "A")).perform sectionAlone).2.arena.slot? ⟨4⟩ =
      some (⟨5⟩, .typeReference) := by
  have hunit : sectionAlone.arena.Refuses ⟨0⟩ (some .attributeSection)
      (.kindMismatch ⟨0⟩ .attributeSection .compilationUnit) :=
    .otherKind (by decide) (by decide) (by decide)
  have hspace : sectionAlone.arena.Refuses ⟨1⟩ none (.removed ⟨1⟩) :=
    .removed ⟨_, rfl, by decide⟩
  have hattribute := requests_all_or_nothing sectionAlone
    (.build (.attributeUse ⟨0⟩ "A")) (by decide)
  have htype := requests_all_or_nothing sectionAlone
    (.build (.typeDeclaration ⟨1⟩ .classType "C")) (by decide)
  have hadd := requests_all_or_nothing sectionAlone (.build (.attributeUse ⟨3⟩ "A")) (by decide)
  have hmismatch := (hattribute.1 _).mpr hunit
  have hgone := (htype.1 _).mpr hspace
  refine ⟨Prod.ext hmismatch (hattribute.2.1 _ hmismatch), Prod.ext hgone (htype.2.1 _ hgone), ?_⟩
  obtain ⟨-, b, htree, hadds⟩ := hadd.2.2 _ _ _ (some ⟨4⟩) rfl rfl rfl
  rw [htree]
  exact hadds.named

end SyntaxTree

end Decompiled
