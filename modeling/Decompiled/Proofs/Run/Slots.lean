import Decompiled.Proofs.Arena.Slots
import Decompiled.Proofs.Run.Edits

/-!
# Passes leave names with their owners

A pass removes attributes and sections of attributes, or type declarations and
namespaces, and gives identifiers other names. So an identifier or a reference
to a type goes only with the node it hangs in, wherever the pass stops. A tree
in which attributes and declarations name children of theirs stays one, whatever
is run over it.

* `Run.SparesNames.sweep`: visits to nodes of one kind, if each of them spares names.
* `StandardPass.sparesNames_run`: a pass, by the kind of the nodes that it lists.
* `sparesNames_runPasses`: a run of any number of passes.
* `slots_survive_runs`: building makes well slotted trees, and runs leave them.
-/

namespace Decompiled

open Work Attempt

variable {a : Arena} {run : Run} {i : NodeIndex}

/-- Since the arena `a`, names have gone with their owners only. -/
def Run.SparesNames (a : Arena) (run : Run) : Prop := a.SparesNames run.tree.arena

/-! ## Visits -/

namespace Run.SparesNames

/-- A node that is no name may be removed, whatever is announced. -/
theorem announce_remove (h : Run.SparesNames a run) {kind : NodeKind}
    (hkind : a.kind? i = some kind) (hname : kind.isName = false) (notice : Notice) :
    Run.SparesNames a (announce notice (Edit.remove i) run).2 := by
  rw [announce_apply]
  refine h.trans (Arena.sparesNames_cut h.links fun found hfound => ?_)
  rw [h.kind?, hkind] at hfound
  rw [← Option.some.inj hfound]
  exact hname

theorem announce_rename (h : Run.SparesNames a run) (name : String) (notice : Notice) :
    Run.SparesNames a (announce notice (Edit.setIdentifierName i name) run).2 := by
  rw [announce_apply]
  exact h.trans (Arena.sparesNames_rename h.links i name)

/-- What is left after the first part of a sequence is left after both, if the
second part keeps it. -/
theorem bind {α β : Type} {x : Work α} {f : α → Work β} (hx : Run.SparesNames a (x run).2)
    (hf : ∀ value left, Run.SparesNames a left → Run.SparesNames a (f value left).2) :
    Run.SparesNames a ((x >>= f) run).2 :=
  state_bind (fun _ _ => hx) fun value _ => hf value _ hx

theorem escape_visit (h : Run.SparesNames a run) (i : NodeIndex) :
    Run.SparesNames a (EscapeIdentifiers.visit i run).2 := by
  rcases EscapeIdentifiers.visit_cases i run with hskip | ⟨before, after, -, -, hvisit⟩
  · rw [hskip]
    exact h
  · rw [hvisit]
    exact bind (h.announce_rename _ _) fun _ _ hleft => hleft

theorem removeMatching (h : Run.SparesNames a run) {rule : SyntaxTree → NodeIndex → Bool}
    {indices : List NodeIndex} (hkinds : ∀ j ∈ indices, a.kind? j = some .attributeUse) :
    Run.SparesNames a (AssemblyAttributes.removeMatching rule indices run).2 := by
  induction indices generalizing run with
  | nil => exact h
  | cons j rest ih =>
      have hrest : ∀ k ∈ rest, a.kind? k = some .attributeUse := fun k hk =>
        hkinds k (List.mem_cons_of_mem _ hk)
      have hj : a.kind? j = some .attributeUse := hkinds j List.mem_cons_self
      rw [AssemblyAttributes.removeMatching_cons]
      split
      · exact bind (h.announce_remove hj rfl _) fun _ _ hleft => ih hleft hrest
      · exact ih h hrest

theorem removeIfEmpty (h : Run.SparesNames a run)
    (hkind : a.kind? i = some .attributeSection) :
    Run.SparesNames a (AssemblyAttributes.removeIfEmpty i run).2 := by
  rw [AssemblyAttributes.removeIfEmpty_apply]
  split
  · exact h.announce_remove hkind rfl _
  · exact h

theorem assembly_visit (h : Run.SparesNames a run)
    (hkind : a.kind? i = some .attributeSection) :
    Run.SparesNames a (AssemblyAttributes.visit i run).2 := by
  rw [AssemblyAttributes.visit_apply]
  rcases (run.tree.arena.attributeTarget? i).bind AssemblyAttributes.rule? with _ | rule
  · exact h
  · have hkinds : ∀ j ∈ run.tree.arena.attributes i, a.kind? j = some .attributeUse := by
      intro j hj
      unfold Arena.attributes Arena.childrenOfKind at hj
      rw [List.mem_filter, beq_iff_eq, h.kind?] at hj
      exact hj.2
    refine bind (h.removeMatching hkinds) fun _ _ hleft => ?_
    exact bind (hleft.removeIfEmpty hkind) fun _ _ hend => hend

theorem embedded_visit (h : Run.SparesNames a run) (hkind : a.kind? i = some .typeDeclaration) :
    Run.SparesNames a (EmbeddedTypes.visit i run).2 := by
  rw [EmbeddedTypes.visit_apply]
  split
  · refine bind ?_ fun _ _ hleft => hleft
    rw [EmbeddedTypes.removeHelper_apply]
    rcases run.tree.arena.parent? i with _ | p
    · exact h
    · show Run.SparesNames a (announce _ (Edit.remove
        (if EmbeddedTypes.isSingleMemberNamespace run.tree.arena p then p else i)) run).2
      split
      · -- The namespace around the helper goes.
        rename_i hsingle
        unfold EmbeddedTypes.isSingleMemberNamespace at hsingle
        rw [Bool.and_eq_true, beq_iff_eq, h.kind?] at hsingle
        exact h.announce_remove hsingle.1 rfl _
      · exact h.announce_remove hkind rfl _
  · exact h

/-! ## Sweeps and passes -/

/-- A sweep over nodes of one kind, of which each visit spares names. -/
theorem sweep {sweep : Sweep} {kind : NodeKind}
    (hlisted : ∀ tree, ∀ i ∈ sweep.nodes tree, tree.arena.kind? i = some kind)
    (hvisit : ∀ {run i}, Run.SparesNames a run → a.kind? i = some kind →
      Run.SparesNames a (sweep.visit i run).2)
    (hfinish : ∀ {run} count, Run.SparesNames a run →
      Run.SparesNames a (sweep.finish count run).2)
    (h : Run.SparesNames a run) : Run.SparesNames a (sweep.run run).2 := by
  have hkinds : ∀ i ∈ sweep.nodes run.tree, a.kind? i = some kind := by
    intro i hi
    rw [← h.kind?]
    exact hlisted run.tree i hi
  -- The kinds are those that the nodes had when they were listed.
  have hvisits : (sweep.visitAll 0 (sweep.nodes run.tree)).Keeps
      fun tree => a.SparesNames tree.arena :=
    (Keeps.inherited _).visitAll (fun i hi _ h => hvisit h (hkinds i hi)) 0
  unfold Sweep.run
  rw [look_bind_apply]
  exact bind (hvisits run h) fun count _ hleft => hfinish count hleft

end Run.SparesNames

/-- A pass removes names only with their owners, wherever it stops. -/
theorem StandardPass.sparesNames_run (pass : StandardPass) (h : Run.SparesNames a run) :
    Run.SparesNames a (pass.pass.run run).2 := by
  have hfilter : ∀ {arena : Arena} {listed : List NodeIndex} {kind : NodeKind},
      ∀ i ∈ listed.filter (fun i => arena.kind? i == some kind), arena.kind? i = some kind :=
    fun i hi => beq_iff_eq.mp (List.mem_filter.mp hi).2
  cases pass with
  | escapeIdentifiers =>
      exact .sweep (fun _ => hfilter) (fun h _ => h.escape_visit _) (fun _ h => h) h
  | assemblyAttributes =>
      exact .sweep (fun _ => hfilter) (fun h hkind => h.assembly_visit hkind) (fun _ h => h) h
  | embeddedTypes =>
      exact .sweep (fun _ => hfilter) (fun h hkind => h.embedded_visit hkind) (fun _ h => h) h

/-! ## Runs -/

theorem sparesNames_runPasses (hlinks : a.WellLinked) (passes : List StandardPass)
    {tree : SyntaxTree} (harena : tree.arena = a) (token : Token) (moment : Moment) :
    a.SparesNames (runPasses passes tree token moment).2.tree.arena := by
  have hkeeps : (Pass.performAll (passes.map StandardPass.pass)).Keeps
      fun tree => a.SparesNames tree.arena :=
    (Keeps.inherited _).performStandard fun pass _ _ h => pass.sparesNames_run h
  have hstart : a.SparesNames tree.arena := by
    rw [harena]
    exact .refl hlinks
  unfold runPasses Pipeline.run
  rw [Pipeline.passes_ofList]
  exact hkeeps (.start tree token moment) hstart

/-! ## What is built, and what is run over it -/

theorem wellSlotted_new : SyntaxTree.new.arena.WellSlotted := by decide

theorem wellSlotted_grow {tree : SyntaxTree} (h : tree.arena.WellSlotted)
    {builders : List Arena.Builder} (hfits : (tree.grow builders).arena.Fits) :
    (tree.grow builders).arena.WellSlotted := by
  induction builders generalizing tree with
  | nil => exact h
  | cons builder rest ih =>
      have hsize :=
        SyntaxTree.size_le_grow { tree with arena := builder.operation.apply tree.arena } rest
      have hnext : (builder.operation.apply tree.arena).Fits := Nat.le_trans hsize hfits
      exact ih (h.grows (builder.grows tree.arena hnext)) hfits

/-- What is built with operations of its own kind alone is well slotted. And if a
tree is, so is what any run leaves of it, whatever its root is and however the
run ends. In all these trees the members of a live declaration are its children
less the identifier of its name and the sections of attributes, in order. -/
theorem slots_survive_runs :
    (∀ builders, (SyntaxTree.new.grow builders).arena.Fits →
      (SyntaxTree.new.grow builders).arena.WellSlotted ∧
        (SyntaxTree.new.grow builders).arena.MembersExact) ∧
    ∀ tree : SyntaxTree, tree.arena.Reachable → tree.arena.Fits → tree.arena.WellSlotted →
      ∀ passes token moment,
        let left := (runPasses passes tree token moment).2.tree
        left.arena.WellSlotted ∧ left.arena.MembersExact := by
  constructor
  · intro builders hfits
    have hslotted := wellSlotted_grow wellSlotted_new hfits
    have hlinks := (SyntaxTree.reachable_grow SyntaxTree.reachable_new builders).wellLinked hfits
    exact ⟨hslotted, hslotted.membersExact hlinks⟩
  · intro tree hreachable hfits hslotted passes token moment left
    have hlinks := hreachable.wellLinked hfits
    have hspares : tree.arena.SparesNames left.arena :=
      sparesNames_runPasses hlinks passes rfl token moment
    have hleft := hslotted.spared hspares hlinks
    exact ⟨hleft, hleft.membersExact hspares.links⟩

/-- A unit with an attribute, and a namespace of a helper type and another
type. -/
def slottedUnit : SyntaxTree :=
  { SyntaxTree.new.grow
      [.attributeSection ⟨0⟩ .wholeModule, .attributeUse ⟨1⟩ "UnverifiableCode",
        .namespaceDeclaration ⟨0⟩ "1", .typeDeclaration ⟨4⟩ .classType "E",
        .typeDeclaration ⟨4⟩ .classType "a-b"] with
    annotations :=
      ⟨[(⟨3⟩, KnownNames.unverifiableCode)], [(⟨6⟩, ⟨KnownNames.embedded, ⟨1⟩⟩)]⟩ }

/-- Cancelled when the helper has gone and the attribute has not. -/
theorem slots_of_slottedUnit :
    let left := (runPasses [.escapeIdentifiers, .embeddedTypes, .assemblyAttributes]
      slottedUnit .fresh (.atEvent 5)).2.tree
    left.arena.isLive ⟨2⟩ = true ∧ left.arena.isLive ⟨6⟩ = false ∧
      left.arena.WellSlotted ∧ left.arena.MembersExact := by
  have hgrown : slottedUnit.arena.WellSlotted := (slots_survive_runs.1 _ (by decide)).1
  have hreachable : slottedUnit.arena.Reachable :=
    SyntaxTree.reachable_grow SyntaxTree.reachable_new _
  have hleft := slots_survive_runs.2 slottedUnit hreachable (by decide) hgrown
    [.escapeIdentifiers, .embeddedTypes, .assemblyAttributes] .fresh (.atEvent 5)
  exact ⟨by decide +kernel, by decide +kernel, hleft⟩

end Decompiled
