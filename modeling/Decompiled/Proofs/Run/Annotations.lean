import Mathlib.Data.List.Induction
import Decompiled.Proofs.Arena.Builders
import Decompiled.Proofs.Run.History
import Decompiled.Proofs.Run.Thinning

/-!
# Annotations stay with their node

The name of an attribute is kept under the index of another node, the reference
to its type. So it stays with the attribute only if no other attribute ever holds
the same index: each reference is made for one attribute, in the slot after it,
and no slot is ever used again.

* `SyntaxTree.Action`: what can be done to a tree, step by step.
* `SyntaxTree.Faithful`: a tree and what has been recorded of it agree.
* `SyntaxTree.Faithful.grow`, `SyntaxTree.Faithful.thin`,
  `SyntaxTree.Faithful.annotateAttribute`,
  `SyntaxTree.Faithful.annotateTypeDeclaration`: the steps.
* `SyntaxTree.annotations_kept`: after any actions, the last name given to an
  attribute is the one found, and so for definitions.
-/

namespace Decompiled

namespace SyntaxTree

open Work Attempt

/-! ## Histories of a tree -/

/-- What is done to a tree: building, changing the name of an identifier,
removing a node, resolving names, and running passes, alone or together. -/
inductive Action where
  | build (builder : Arena.Builder)
  | rename (index : NodeIndex) (name : String)
  | remove (index : NodeIndex)
  | annotateAttribute (index : NodeIndex) (fullName : String)
  | annotateTypeDeclaration (index : NodeIndex) (definition : Definition)
  | pass (pass : StandardPass) (token : Token) (moment : Moment)
  | pipeline (passes : List StandardPass) (token : Token) (moment : Moment)

/-- The tree that an action leaves, whether it succeeds or fails. -/
def Action.apply (tree : SyntaxTree) : Action → SyntaxTree
  | .build builder => { tree with arena := builder.operation.apply tree.arena }
  | .rename index name => (edit (Edit.setIdentifierName index name) tree).2
  | .remove index => (edit (Edit.remove index) tree).2
  | .annotateAttribute index fullName => (SyntaxTree.annotateAttribute index fullName tree).2
  | .annotateTypeDeclaration index definition =>
      (SyntaxTree.annotateTypeDeclaration index definition tree).2
  | .pass chosen token moment => (chosen.pass.run (.start tree token moment)).2.tree
  | .pipeline passes token moment => (runPasses passes tree token moment).2.tree

/-- The tree after actions from a new one. -/
def play (actions : List Action) : SyntaxTree := actions.foldl Action.apply .new

/-- Each action with the tree that it is applied to. -/
def moments : SyntaxTree → List Action → List (SyntaxTree × Action)
  | _, [] => []
  | tree, action :: rest => (tree, action) :: moments (action.apply tree) rest

/-- The name that an action gives to an attribute, if it succeeds. -/
def nameGiven? (index : NodeIndex) : SyntaxTree × Action → Option String
  | (tree, .annotateAttribute other fullName) =>
      if other = index ∧ (annotateAttribute other fullName tree).1.isOk then some fullName
      else none
  | _ => none

/-- The definition that an action gives to a declaration, if it succeeds. -/
def definitionGiven? (index : NodeIndex) : SyntaxTree × Action → Option Definition
  | (tree, .annotateTypeDeclaration other definition) =>
      if other = index ∧ (annotateTypeDeclaration other definition tree).1.isOk then
        some definition
      else none
  | _ => none

/-- The names given to an attribute, in order. -/
def namesGiven (actions : List Action) (index : NodeIndex) : List String :=
  (moments .new actions).filterMap (nameGiven? index)

/-- The definitions given to a declaration, in order. -/
def definitionsGiven (actions : List Action) (index : NodeIndex) : List Definition :=
  (moments .new actions).filterMap (definitionGiven? index)

/-- A node was made below another one. -/
def MadeBelow (actions : List Action) (index parent : NodeIndex) : Prop :=
  ∃ tree action, (tree, action) ∈ moments .new actions ∧ tree.arena.get? index = none ∧
    (Action.apply tree action).arena.parent? index = some parent

theorem play_append (actions : List Action) (action : Action) :
    play (actions ++ [action]) = action.apply (play actions) := by
  unfold play
  rw [List.foldl_append]
  rfl

theorem moments_append (tree : SyntaxTree) (actions : List Action) (action : Action) :
    moments tree (actions ++ [action]) =
      moments tree actions ++ [(actions.foldl Action.apply tree, action)] := by
  induction actions generalizing tree with
  | nil => rfl
  | cons first rest ih => exact congrArg (List.cons (tree, first)) (ih (first.apply tree))

/-- What the last action adds to what has been given. -/
theorem filterMap_moments_append {α : Type} (given? : SyntaxTree × Action → Option α)
    (actions : List Action) (action : Action) :
    (moments .new (actions ++ [action])).filterMap given? =
      (moments .new actions).filterMap given? ++ (given? (play actions, action)).toList := by
  rw [moments_append, List.filterMap_append, List.filterMap_cons, List.filterMap_nil]
  show _ ++ _ = _ ++ (given? (actions.foldl Action.apply .new, action)).toList
  rcases given? (actions.foldl Action.apply .new, action) with _ | value <;> rfl

section History

variable {actions : List Action} {action : Action} {index parent : NodeIndex}

theorem MadeBelow.append (h : MadeBelow actions index parent) :
    MadeBelow (actions ++ [action]) index parent := by
  obtain ⟨tree, done, hmem, hnew, hp⟩ := h
  refine ⟨tree, done, ?_, hnew, hp⟩
  rw [moments_append]
  exact List.mem_append_left _ hmem

/-- The last action made the node. -/
theorem MadeBelow.last (hnew : (play actions).arena.get? index = none)
    (hp : (action.apply (play actions)).arena.parent? index = some parent) :
    MadeBelow (actions ++ [action]) index parent := by
  refine ⟨play actions, action, ?_, hnew, hp⟩
  rw [moments_append]
  exact List.mem_append_cons_self

end History

/-! ## What is recorded -/

/-- A tree, and what is known of its past: which nodes were made below which,
and which names and definitions were given to attributes and declarations. -/
structure Faithful (tree : SyntaxTree) (made : NodeIndex → NodeIndex → Prop)
    (names : NodeIndex → List String) (definitions : NodeIndex → List Definition) : Prop where
  /-- An attribute has a reference to its type, made below it in the next slot. -/
  refs : ∀ {i}, tree.arena.kind? i = some .attributeUse → ∃ t,
    tree.arena.attributeTypeRef? i = some t ∧ t.toNat = i.toNat + 1 ∧
      tree.arena.kind? t = some .typeReference ∧ made t i
  /-- Nothing is recorded of slots that are still to come. -/
  absent : ∀ {x}, tree.arena.get? x = none →
    tree.annotations.typeOf? x = none ∧ names x = []
  resolved : ∀ {i t}, tree.arena.attributeTypeRef? i = some t →
    tree.annotations.typeOf? t = (names i).getLast?
  defined : ∀ d, tree.annotations.definitionOf? d = (definitions d).getLast?

namespace Faithful

variable {tree : SyntaxTree} {made made' : NodeIndex → NodeIndex → Prop}
  {names : NodeIndex → List String} {definitions : NodeIndex → List Definition} {b : Arena}
  {i j t : NodeIndex}

theorem ref_of_typeRef (h : Faithful tree made names definitions)
    (href : tree.arena.attributeTypeRef? i = some t) :
    tree.arena.kind? i = some .attributeUse ∧ t.toNat = i.toNat + 1 ∧
      tree.arena.kind? t = some .typeReference := by
  have hkind := Arena.kind?_of_typeRef href
  obtain ⟨found, hfound, hnext, ht, -⟩ := h.refs hkind
  rw [href] at hfound
  cases hfound
  exact ⟨hkind, hnext, ht⟩

/-- No two attributes have the same reference. -/
theorem typeRef_inj (h : Faithful tree made names definitions)
    (hi : tree.arena.attributeTypeRef? i = some t)
    (hj : tree.arena.attributeTypeRef? j = some t) : i = j := by
  obtain ⟨-, hit, -⟩ := h.ref_of_typeRef hi
  obtain ⟨-, hjt, -⟩ := h.ref_of_typeRef hj
  exact NodeIndex.toNat_inj.mp (by omega)

theorem start : Faithful .new made (fun _ => []) (fun _ => []) where
  refs := by
    intro i hkind
    have hzero : i = ⟨0⟩ := by
      obtain ⟨node, hget, -⟩ := Option.map_eq_some_iff.mp hkind
      have hlt : i.toNat < 1 := (Arena.bounds_of_get? hget).2
      exact NodeIndex.toNat_inj.mp (Nat.lt_one_iff.mp hlt)
    rw [hzero] at hkind
    cases hkind
  absent := fun _ => ⟨rfl, rfl⟩
  resolved := fun _ => rfl
  defined := fun _ => rfl

/-- Building makes new attributes, and nothing is recorded of these. -/
theorem grow (h : Faithful tree made names definitions) (hgrows : Arena.Grows tree.arena b)
    (hmore : ∀ {c p}, made c p → made' c p)
    (hnew : ∀ {c p}, tree.arena.get? c = none → b.parent? c = some p → made' c p) :
    Faithful { tree with arena := b } made' names definitions where
  refs := by
    intro i hkind
    rcases hget : tree.arena.get? i with _ | node
    · obtain ⟨t, hslot⟩ := Arena.exists_slot_of_attributeUse hkind
      obtain ⟨hnone, hnext, -, ht, hp⟩ := hgrows.fresh hget hslot
      have hne : t ≠ .none := by
        rintro rfl
        cases ht
      exact ⟨t, Arena.attributeTypeRef?_eq_some_iff.mpr ⟨hslot, hne⟩, hnext, ht, hnew hnone hp⟩
    · obtain ⟨t, href, hnext, ht, hmade⟩ := h.refs ((hgrows.kind?_eq hget).symm.trans hkind)
      exact ⟨t, (hgrows.attributeTypeRef?_eq hget).trans href, hnext, hgrows.kind?_of_old ht,
        hmore hmade⟩
  absent := fun hx => h.absent (hgrows.absent hx)
  resolved := by
    intro i t href
    rcases hget : tree.arena.get? i with _ | node
    · obtain ⟨hslot, -⟩ := Arena.attributeTypeRef?_eq_some_iff.mp href
      obtain ⟨hnone, -⟩ := hgrows.fresh hget hslot
      rw [(h.absent hnone).1, (h.absent hget).2]
      rfl
    · rw [hgrows.attributeTypeRef?_eq hget] at href
      exact h.resolved href
  defined := h.defined

/-- Where subtrees are cut off and identifiers get other names, all stays as it
is. -/
theorem thin (h : Faithful tree made names definitions) {tree' : SyntaxTree}
    (hannotations : tree'.annotations = tree.annotations)
    (hthins : tree.arena.Thins tree'.arena) : Faithful tree' made names definitions where
  refs := by
    intro i hkind
    rw [hthins.kind?] at hkind
    obtain ⟨t, href, hnext, ht, hmade⟩ := h.refs hkind
    exact ⟨t, (hthins.attributeTypeRef? i).trans href, hnext, (hthins.kind? t).trans ht, hmade⟩
  absent := by
    intro x hx
    rw [hannotations]
    refine h.absent ?_
    have hsame := hthins.isSome_get? x
    rw [hx] at hsame
    exact Option.isNone_iff_eq_none.mp (by simpa using hsame.symm)
  resolved := by
    intro i t href
    rw [hthins.attributeTypeRef?] at href
    rw [hannotations]
    exact h.resolved href
  defined := by
    rw [hannotations]
    exact h.defined

/-- A name given to an attribute is found for it, and for no other one. -/
theorem annotateAttribute (h : Faithful tree made names definitions)
    (href : tree.arena.attributeTypeRef? i = some t) (fullName : String) :
    Faithful { tree with annotations := tree.annotations.setType t fullName } made
      (fun j => names j ++ if i = j then [fullName] else []) definitions where
  refs := h.refs
  absent := by
    intro x hx
    obtain ⟨hkind, -, ht⟩ := h.ref_of_typeRef href
    have hxt : x ≠ t := by
      rintro rfl
      rw [Arena.kind?_of_absent hx] at ht
      cases ht
    have hix : i ≠ x := by
      rintro rfl
      rw [Arena.kind?_of_absent hx] at hkind
      cases hkind
    obtain ⟨htype, hnames⟩ := h.absent hx
    refine ⟨?_, ?_⟩
    · rw [Annotations.typeOf?_setType, if_neg hxt, htype]
    · rw [if_neg hix, hnames]
      rfl
  resolved := by
    intro j s hs
    rw [Annotations.typeOf?_setType]
    by_cases hij : i = j
    · subst hij
      rw [href] at hs
      cases hs
      rw [if_pos rfl, if_pos rfl, List.getLast?_concat]
    · have hst : s ≠ t := by
        rintro rfl
        exact hij (h.typeRef_inj href hs)
      rw [if_neg hst, if_neg hij, List.append_nil]
      exact h.resolved hs
  defined := h.defined

theorem annotateTypeDeclaration (h : Faithful tree made names definitions)
    (definition : Definition) :
    Faithful { tree with annotations := tree.annotations.setDefinition i definition } made names
      (fun d => definitions d ++ if i = d then [definition] else []) where
  refs := h.refs
  absent := h.absent
  resolved := h.resolved
  defined := by
    intro d
    rw [Annotations.definitionOf?_setDefinition]
    by_cases hid : i = d
    · subst hid
      rw [if_pos rfl, if_pos rfl, List.getLast?_concat]
    · rw [if_neg (Ne.symm hid), if_neg hid, List.append_nil]
      exact h.defined d

end Faithful

/-! ## Actions -/

/-- A name is recorded under the reference of an attribute that has one. -/
theorem annotateAttribute_cases (tree : SyntaxTree) (index : NodeIndex) (fullName : String) :
    (∃ error, tree.arena.attributeTypeRef? index = none ∧
      SyntaxTree.annotateAttribute index fullName tree = (.error error, tree)) ∨
    ∃ t, tree.arena.attributeTypeRef? index = some t ∧
      SyntaxTree.annotateAttribute index fullName tree =
        (.ok (), { tree with annotations := tree.annotations.setType t fullName }) := by
  unfold SyntaxTree.annotateAttribute
  rcases tree.arena.attributeTypeRef? index with _ | t
  · exact .inl ⟨_, rfl, rfl⟩
  · exact .inr ⟨t, rfl, rfl⟩

theorem annotateTypeDeclaration_cases (tree : SyntaxTree) (index : NodeIndex)
    (definition : Definition) :
    (∃ error, SyntaxTree.annotateTypeDeclaration index definition tree = (.error error, tree)) ∨
    SyntaxTree.annotateTypeDeclaration index definition tree =
      (.ok (),
        { tree with annotations := tree.annotations.setDefinition index definition }) := by
  rw [annotateTypeDeclaration_apply]
  rcases tree.arena.liveOfKind index .typeDeclaration with error | node
  · exact .inl ⟨error, rfl⟩
  · exact .inr rfl

/-- No action loses a slot, and links stay in agreement. -/
theorem keepsLinks_apply (tree : SyntaxTree) (action : Action) :
    Arena.KeepsLinks tree.arena (action.apply tree).arena := by
  cases action with
  | build builder => exact Edit.along_operation Arena.covers_keepsLinks builder.operation tree.arena
  | rename index name =>
      show Arena.KeepsLinks tree.arena (edit (Edit.setIdentifierName index name) tree).2.arena
      rw [edit_apply]
      exact Edit.along_setIdentifierName Arena.covers_keepsLinks index name tree.arena
  | remove index =>
      show Arena.KeepsLinks tree.arena (edit (Edit.remove index) tree).2.arena
      rw [edit_apply]
      exact Arena.covers_keepsLinks.remove index tree.arena
  | annotateAttribute index fullName =>
      show Arena.KeepsLinks tree.arena
        (SyntaxTree.annotateAttribute index fullName tree).2.arena
      rcases annotateAttribute_cases tree index fullName with ⟨_, -, h⟩ | ⟨t, -, h⟩
      · rw [h]
        exact Std.Refl.refl tree.arena
      · rw [h]
        exact Std.Refl.refl tree.arena
  | annotateTypeDeclaration index definition =>
      show Arena.KeepsLinks tree.arena
        (SyntaxTree.annotateTypeDeclaration index definition tree).2.arena
      rcases annotateTypeDeclaration_cases tree index definition with ⟨_, h⟩ | h
      · rw [h]
        exact Std.Refl.refl tree.arena
      · rw [h]
        exact Std.Refl.refl tree.arena
  | pass chosen token moment =>
      exact StandardPass.along_run Arena.covers_keepsLinks.passes.toCovers chosen
        (.start tree token moment)
  | pipeline passes token moment =>
      exact along_runPasses Arena.covers_keepsLinks.passes passes tree token moment

/-- An action that gives nothing leaves the record as it is. -/
theorem Faithful.of_nothing_given {tree : SyntaxTree} {made : NodeIndex → NodeIndex → Prop}
    {names : NodeIndex → List String} {definitions : NodeIndex → List Definition}
    {moment : SyntaxTree × Action} (h : Faithful tree made names definitions)
    (hname : ∀ i, nameGiven? i moment = none) (hdefinition : ∀ d, definitionGiven? d moment = none) :
    Faithful tree made (fun i => names i ++ (nameGiven? i moment).toList)
      (fun d => definitions d ++ (definitionGiven? d moment).toList) := by
  simpa only [hname, hdefinition, Option.toList_none, List.append_nil] using h

/-- One action keeps a tree and the record of its past in agreement, if the
record is carried on. -/
theorem Faithful.apply {tree : SyntaxTree} {made made' : NodeIndex → NodeIndex → Prop}
    {names : NodeIndex → List String} {definitions : NodeIndex → List Definition}
    (h : Faithful tree made names definitions) (hlinks : tree.arena.WellLinked) (action : Action)
    (hfits : (action.apply tree).arena.Fits) (hmore : ∀ {c p}, made c p → made' c p)
    (hnew : ∀ {c p}, tree.arena.get? c = none → (action.apply tree).arena.parent? c = some p →
      made' c p) :
    Faithful (action.apply tree) made'
      (fun i => names i ++ (nameGiven? i (tree, action)).toList)
      (fun d => definitions d ++ (definitionGiven? d (tree, action)).toList) := by
  have hstays : Faithful tree made' names definitions := by
    refine h.grow (.refl tree.arena) hmore fun hnone hp => ?_
    obtain ⟨node, hget, -⟩ := Arena.exists_of_parent? hp
    rw [hnone] at hget
    cases hget
  cases action with
  | build builder =>
      refine .of_nothing_given ?_ (fun _ => rfl) fun _ => rfl
      exact h.grow (builder.grows tree.arena hfits) hmore hnew
  | rename index name =>
      have happly : Action.apply tree (.rename index name) =
          { tree with arena := tree.arena.rename index name } :=
        congrArg Prod.snd (edit_apply _ tree)
      rw [happly]
      refine .of_nothing_given ?_ (fun _ => rfl) fun _ => rfl
      exact hstays.thin rfl (Arena.thins_rename hlinks index name)
  | remove index =>
      have happly : Action.apply tree (.remove index) =
          { tree with arena := tree.arena.cut index } :=
        congrArg Prod.snd (edit_apply _ tree)
      rw [happly]
      refine .of_nothing_given ?_ (fun _ => rfl) fun _ => rfl
      exact hstays.thin rfl (Arena.thins_cut hlinks index)
  | annotateAttribute index fullName =>
      rcases annotateAttribute_cases tree index fullName with ⟨error, -, hdone⟩ | ⟨t, href, hdone⟩
      · have happly : Action.apply tree (.annotateAttribute index fullName) = tree :=
          congrArg Prod.snd hdone
        rw [happly]
        refine hstays.of_nothing_given (fun i => ?_) fun _ => rfl
        simp [nameGiven?, hdone, Except.isOk, Except.toBool]
      · have happly : Action.apply tree (.annotateAttribute index fullName) =
            { tree with annotations := tree.annotations.setType t fullName } :=
          congrArg Prod.snd hdone
        simp only [nameGiven?, definitionGiven?, hdone]
        rw [happly]
        have hnext := hstays.annotateAttribute href fullName
        simpa [Except.isOk, Except.toBool, apply_ite Option.toList] using hnext
  | annotateTypeDeclaration index definition =>
      rcases annotateTypeDeclaration_cases tree index definition with ⟨error, hdone⟩ | hdone
      · have happly : Action.apply tree (.annotateTypeDeclaration index definition) = tree :=
          congrArg Prod.snd hdone
        rw [happly]
        refine hstays.of_nothing_given (fun _ => rfl) fun d => ?_
        simp [definitionGiven?, hdone, Except.isOk, Except.toBool]
      · have happly : Action.apply tree (.annotateTypeDeclaration index definition) =
            { tree with
              annotations := tree.annotations.setDefinition index definition } :=
          congrArg Prod.snd hdone
        simp only [nameGiven?, definitionGiven?, hdone]
        rw [happly]
        have hnext := hstays.annotateTypeDeclaration (i := index) definition
        simpa [Except.isOk, Except.toBool, apply_ite Option.toList] using hnext
  | pass chosen token moment =>
      have hran := StandardPass.along_run Run.covers_thins.toCovers chosen
        (.start tree token moment)
      refine .of_nothing_given ?_ (fun _ => rfl) fun _ => rfl
      exact hstays.thin hran.annotations (hran.arena hlinks)
  | pipeline passes token moment =>
      have hran := Run.thins_runPasses passes tree token moment
      refine .of_nothing_given ?_ (fun _ => rfl) fun _ => rfl
      exact hstays.thin hran.annotations (hran.arena hlinks)

/-- After any actions, the tree and the record of its past agree. -/
theorem faithful_play (actions : List Action) (hfits : (play actions).arena.Fits) :
    (play actions).arena.WellLinked ∧ Faithful (play actions) (MadeBelow actions)
      (namesGiven actions) (definitionsGiven actions) := by
  induction actions using List.reverseRecOn with
  | nil => exact ⟨reachable_new.wellLinked (by decide), .start⟩
  | append_singleton actions action ih =>
      rw [play_append] at hfits ⊢
      obtain ⟨hsize, hkeeps⟩ := keepsLinks_apply (play actions) action
      obtain ⟨hlinks, h⟩ := ih (Nat.le_trans hsize hfits)
      refine ⟨hkeeps hfits hlinks, ?_⟩
      have hnext := h.apply hlinks action hfits MadeBelow.append MadeBelow.last
      have hnames : namesGiven (actions ++ [action]) = fun i =>
          namesGiven actions i ++ (nameGiven? i (play actions, action)).toList :=
        funext fun i => filterMap_moments_append _ actions action
      have hdefinitions : definitionsGiven (actions ++ [action]) = fun d =>
          definitionsGiven actions d ++ (definitionGiven? d (play actions, action)).toList :=
        funext fun d => filterMap_moments_append _ actions action
      rw [hnames, hdefinitions]
      exact hnext

/-- After any actions on a new tree, while each slot has an index: each attribute
has a type reference of its own, made below it. The name found for an attribute
is the last one that has been given to it, if any; and the definition found for a
declaration is the last one given to that. -/
theorem annotations_kept (actions : List Action) (hfits : (play actions).arena.Fits) :
    let tree := play actions
    (∀ i, tree.arena.kind? i = some .attributeUse → ∃ t,
      tree.arena.attributeTypeRef? i = some t ∧
        tree.arena.kind? t = some .typeReference ∧ MadeBelow actions t i) ∧
    (∀ i j t, tree.arena.attributeTypeRef? i = some t →
      tree.arena.attributeTypeRef? j = some t → i = j) ∧
    (∀ i, tree.arena.kind? i = some .attributeUse →
      tree.attributeFullName? i = (namesGiven actions i).getLast?) ∧
    ∀ d, tree.annotations.definitionOf? d = (definitionsGiven actions d).getLast? := by
  intro tree
  obtain ⟨-, h⟩ := faithful_play actions hfits
  refine ⟨fun i hi => ?_, fun i j t => h.typeRef_inj, fun i hi => ?_, h.defined⟩
  · obtain ⟨t, href, -, ht, hmade⟩ := h.refs hi
    exact ⟨t, href, ht, hmade⟩
  · obtain ⟨t, href, -⟩ := h.refs hi
    unfold attributeFullName?
    rw [href]
    exact h.resolved href

/-- Two attributes in a section. One of them is given a name, is removed by a
pass on account of it, and is given another name afterwards. -/
def renamedAttribute : List Action :=
  [.build (.attributeSection ⟨0⟩ .wholeModule), .build (.attributeUse ⟨1⟩ "UnverifiableCode"),
    .build (.attributeUse ⟨1⟩ "Serializable"),
    .annotateAttribute ⟨2⟩ KnownNames.unverifiableCode, .annotateAttribute ⟨3⟩ "Other",
    .pass .assemblyAttributes .fresh .never, .annotateAttribute ⟨2⟩ "Late"]

/-- The attempt to name a reference failed, and so the other attribute has no
name. -/
theorem annotations_of_renamedAttribute :
    let tree := play renamedAttribute
    tree.arena.isLive ⟨2⟩ = false ∧
      tree.attributeFullName? ⟨2⟩ = some "Late" ∧
      tree.attributeFullName? ⟨4⟩ = none ∧
      ∃ t, tree.arena.attributeTypeRef? ⟨4⟩ = some t ∧ MadeBelow renamedAttribute t ⟨4⟩ := by
  obtain ⟨hrefs, -, hnames, -⟩ := annotations_kept renamedAttribute (by decide +kernel)
  obtain ⟨t, href, -, hmade⟩ := hrefs ⟨4⟩ (by decide +kernel)
  refine ⟨by decide +kernel, ?_, ?_, t, href, hmade⟩
  · rw [hnames ⟨2⟩ (by decide +kernel)]
    decide +kernel
  · rw [hnames ⟨4⟩ (by decide +kernel)]
    decide +kernel

end SyntaxTree

end Decompiled
