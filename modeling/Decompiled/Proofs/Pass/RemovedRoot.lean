import Decompiled.Proofs.Pass.Markers
import Decompiled.Proofs.Pass.Settled

/-!
# When removing compiler-written attributes fails

The pass takes the sections from the child list of its root, and a removed root
keeps its list. All on it has been removed with the root, so the first node that
the pass tries to remove is one that has been removed before. Nothing has changed
by then. Over any other root no removal fails.

* `AssemblyAttributes.FirstStop`: the first node that the pass tries to remove.
* `AssemblyAttributes.fails_of_firstStop`: the pass over a removed root.
* `AssemblyAttributes.turns_of_not_removed`: the pass over any other root.
* `AssemblyAttributes.fails_at_first_stop`: the outcome for any root and any run.
-/

namespace Decompiled.AssemblyAttributes

open Work

variable {tree : SyntaxTree} {i s t x : NodeIndex} {front back : List NodeIndex}
  {rule : SyntaxTree → NodeIndex → Bool}

/-! ## The first node to remove -/

/-- The node that is to be removed first when a section is cleaned: the first
attribute that a compiler writes, or a section that has no attributes. -/
inductive StopsAt (tree : SyntaxTree) (s : NodeIndex) : NodeIndex → Prop
  | marker {x : NodeIndex} {front back : List NodeIndex} :
      tree.arena.attributes s = front ++ x :: back → (∀ i ∈ front, ¬ Marker tree s i) →
        Marker tree s x → StopsAt tree s x
  | bare : tree.arena.attributes s = [] → StopsAt tree s s

/-- The node that is to be removed first when the sections directly below the root
are cleaned in their order. -/
def FirstStop (tree : SyntaxTree) (x : NodeIndex) : Prop :=
  ∃ front s back, tree.arena.children tree.root = front ++ s :: back ∧
    (∀ t ∈ front, Inspected tree t → ∀ y, ¬ StopsAt tree t y) ∧
    Inspected tree s ∧ StopsAt tree s x

/-- Nothing is to be removed from a section at rest. -/
theorem rests_iff (hs : s ∈ sweep.nodes tree) :
    StandardPass.assemblyAttributes.Rests tree s ↔
      (Inspected tree s → ∀ y, ¬ StopsAt tree s y) := by
  constructor
  · intro hrests hinspected y hstop
    obtain ⟨-, rule, hrule⟩ := inspected_iff.mp hinspected
    obtain ⟨hsome, hnone⟩ := hrests rule hrule
    cases hstop with
    | marker hlist _ hmarker =>
        have hmem : y ∈ tree.arena.attributes s := by
          rw [hlist]
          exact List.mem_append_cons_self
        have hmatch := (marker_iff hrule).mp hmarker
        rw [hnone y hmem] at hmatch
        cases hmatch
    | bare hempty => exact hsome hempty
  · intro hstops rule hrule
    have hnowhere := hstops (inspected_iff.mpr ⟨hs, rule, hrule⟩)
    refine ⟨fun hempty => hnowhere s (.bare hempty), ?_⟩
    rcases hfind : (tree.arena.attributes s).find? (rule tree) with _ | x
    · exact fun j hj => Bool.eq_false_iff.mpr (List.find?_eq_none.mp hfind j hj)
    · obtain ⟨hmatch, front, back, hlist, hbefore⟩ := List.find?_eq_some_iff_append.mp hfind
      refine absurd (.marker hlist (fun i hi hmarker => ?_) ((marker_iff hrule).mpr hmatch))
        (hnowhere x)
      have hother := hbefore i hi
      rw [(marker_iff hrule).mp hmarker] at hother
      cases hother

/-! ## Visits to removed sections -/

/-- Attributes go in their order, and the first that is to go has been removed. -/
theorem fails_removeMatching (hbefore : ∀ i ∈ front, rule tree i = false)
    (hmatch : rule tree x = true) (hgone : tree.arena.Removed x) :
    (removeMatching rule (front ++ x :: back)).Fails (.tree (.removed x)) tree tree := by
  induction front with
  | nil =>
      apply Fails.look_bind
      rw [hmatch]
      apply Fails.look_bind
      exact .after (.record _) fun _ => .bind (.edit (Edit.remove_of_removed hgone))
  | cons i rest ih =>
      apply Fails.look_bind
      rw [hbefore i List.mem_cons_self]
      exact ih fun j hj => hbefore j (List.mem_cons_of_mem i hj)

/-- So has a section without attributes. -/
theorem fails_removeIfEmpty (hempty : tree.arena.attributes s = [])
    (hgone : tree.arena.Removed s) : (removeIfEmpty s).Fails (.tree (.removed s)) tree tree := by
  apply Fails.look_bind
  rw [hempty]
  exact .after (.record _) fun _ => .edit (Edit.remove_of_removed hgone)

/-- All of a removed section has been removed, so the first removal fails. -/
theorem fails_visit (hlinks : tree.arena.WellLinked) (hs : Inspected tree s)
    (hgone : tree.arena.Removed s) (hstop : StopsAt tree s x) :
    (AssemblyAttributes.visit s).Fails (.tree (.removed x)) tree tree := by
  obtain ⟨-, rule, hrule⟩ := inspected_iff.mp hs
  unfold AssemblyAttributes.visit
  apply Fails.look_bind
  rw [show (tree.arena.attributeTarget? s).bind rule? = some rule from hrule]
  apply Fails.look_bind
  cases hstop with
  | @marker _ front back hlist hbefore hmarker =>
      have hmem : x ∈ tree.arena.attributes s := by
        rw [hlist]
        exact List.mem_append_cons_self
      have hxgone := hlinks.child_removed hgone (mem_attributes.mp hmem).1
      rw [hlist]
      refine .bind (fails_removeMatching (fun i hi => ?_) ((marker_iff hrule).mp hmarker) hxgone)
      exact Bool.eq_false_iff.mpr fun habs => hbefore i hi ((marker_iff hrule).mpr habs)
  | bare hempty =>
      rw [hempty]
      exact .after (.pure ()) fun _ => .bind (fails_removeIfEmpty hempty hgone)

/-! ## The pass over a removed root -/

/-- There is a first stop, or there is none at all. -/
theorem exists_firstStop_or (tree : SyntaxTree) :
    (∃ x, FirstStop tree x) ∨ ∀ s, Inspected tree s → ∀ y, ¬ StopsAt tree s y := by
  classical
  rcases hfind : (tree.arena.children tree.root).find?
      (fun t => decide (Inspected tree t ∧ ∃ y, StopsAt tree t y)) with _ | s
  · refine .inr fun s hs y hstop => List.find?_eq_none.mp hfind s hs.1 ?_
    exact decide_eq_true ⟨hs, y, hstop⟩
  · obtain ⟨hfound, front, back, hlist, hbefore⟩ := List.find?_eq_some_iff_append.mp hfind
    obtain ⟨hs, x, hstop⟩ := of_decide_eq_true hfound
    refine .inl ⟨x, front, s, back, hlist, fun t ht hinspected y hy => ?_, hs, hstop⟩
    have hother := hbefore t ht
    rw [decide_eq_true ⟨hinspected, y, hy⟩] at hother
    cases hother

/-- Sections at rest are left alone, whether they have been removed or not. -/
theorem turns_visitAll_of_rest {nodes : List NodeIndex} (hnodes : ∀ t ∈ nodes, t ∈ sweep.nodes tree)
    (hrests : ∀ t ∈ nodes, Inspected tree t → ∀ y, ¬ StopsAt tree t y) (changes : Nat) :
    (sweep.visitAll changes nodes).Turns tree tree := by
  have hall : ∀ t ∈ nodes, StandardPass.assemblyAttributes.Rests tree t :=
    fun t ht => (rests_iff (hnodes t ht)).mpr (hrests t ht)
  exact Yields.turns fun _ => StandardPass.yields_of_rests hall changes

theorem turns_of_rest (hrests : ∀ s, Inspected tree s → ∀ y, ¬ StopsAt tree s y) :
    pass.run.Turns tree tree := by
  show sweep.run.Turns tree tree
  apply Turns.look_bind
  have hvisits := turns_visitAll_of_rest (fun _ ht => ht) (fun t _ => hrests t) 0
  exact .bind hvisits fun _ => .pure ()

/-- The pass stops at the first node that it tries to remove. -/
theorem fails_of_firstStop (hlinks : tree.arena.WellLinked)
    (hgone : tree.arena.Removed tree.root) (hstop : FirstStop tree x) :
    pass.run.Fails (.tree (.removed x)) tree tree := by
  obtain ⟨front, s, back, hchildren, hbefore, hs, hstops⟩ := hstop
  have hsgone := hlinks.child_removed hgone hs.1
  have hskind := (mem_nodes.mp (inspected_iff.mp hs).1).2
  have hlist : sweep.nodes tree =
      front.filter (fun t => tree.arena.kind? t == some .attributeSection) ++
        s :: back.filter fun t => tree.arena.kind? t == some .attributeSection := by
    show (tree.arena.children tree.root).filter _ = _
    rw [hchildren, List.filter_append, List.filter_cons, if_pos (beq_iff_eq.mpr hskind)]
  refine Sweep.fails_run hlist (turns_visitAll_of_rest (fun t ht => ?_) fun t ht => ?_)
    (fails_visit hlinks hs hsgone hstops)
  · rw [hlist]
    exact List.mem_append_left _ ht
  · exact hbefore t (List.mem_filter.mp ht).1

/-- The pass succeeds over any other root. -/
theorem turns_of_not_removed (hlinks : tree.arena.WellLinked)
    (hkept : ¬ tree.arena.Removed tree.root) : ∃ tree', pass.run.Turns tree tree' := by
  rcases hlive : tree.arena.isLive tree.root with _ | _
  · -- Without a node there is no list to take sections from.
    have habsent : tree.arena.get? tree.root = none := by
      rw [← Option.not_isSome_iff_eq_none]
      exact fun hthere => hkept (Arena.removed_iff.mpr ⟨hthere, hlive⟩)
    refine ⟨tree, turns_of_rest fun s hs => ?_⟩
    have hlisted := hs.1
    rw [Arena.children_of_absent habsent] at hlisted
    cases hlisted
  · obtain ⟨b, hturns, -⟩ := turns_sweep hlinks hlive
    exact ⟨_, hturns⟩

/-! ## Any root and any run -/

theorem cancellable_run : pass.run.Cancellable :=
  Sweep.cancellable_run removals_untimed.section_visit fun _ => .pure ()

/-- Where undisturbed runs succeed, no run has an error of the tree. -/
theorem not_failed_of_turns {run : Run} {tree' : SyntaxTree}
    (hturns : pass.run.Turns run.tree tree') (error : TreeError) :
    (pass.run run).1 ≠ .error (.tree error) := by
  intro herror
  rcases cancellable_run.of_turns hturns with hcancelled | ⟨value, hvalue, -⟩
  · cases herror.symm.trans hcancelled
  · cases herror.symm.trans hvalue

/-- When a run of the pass fails with an error of the tree, for a tree that can be
built, with any root and any annotations, and whoever cancels the run and when. The
root has been removed, and the error is about the first attribute that a compiler
writes in the sections on its list, or about the first of these sections that has
no attributes, whichever comes first. The tree is left as it was. If the root is
live or none at all, there is no such error. A run over a removed root that nobody
cancels fails if there is a first such node. -/
theorem fails_at_first_stop (run : Run) (hreachable : run.tree.arena.Reachable)
    (hfits : run.tree.arena.Fits) :
    let root := run.tree.root
    let before := run.tree.arena
    let ran := pass.run run
    (∀ error, ran.1 = .error (.tree error) →
      before.Removed root ∧ (∃ x, error = .removed x ∧ FirstStop run.tree x) ∧
        ran.2.tree = run.tree) ∧
    (root = .none ∨ before.size ≤ root.toNat ∨ before.isLive root = true →
      ∀ error, ran.1 ≠ .error (.tree error)) ∧
    (run.Undisturbed → before.Removed root → ∀ x, FirstStop run.tree x →
      ran.1 = .error (.tree (.removed x))) := by
  intro root before ran
  have hlinks := hreachable.wellLinked hfits
  have hkept : ¬ before.Removed root → ∀ error, ran.1 ≠ .error (.tree error) := by
    intro hkept
    obtain ⟨tree', hturns⟩ := turns_of_not_removed hlinks hkept
    exact not_failed_of_turns hturns
  refine ⟨fun error herror => ?_, fun hroot => hkept ?_, fun hrun hgone x hstop =>
    (fails_of_firstStop hlinks hgone hstop run hrun rfl).1⟩
  · have hgone : before.Removed root :=
      Classical.byContradiction fun habs => hkept habs error herror
    rcases exists_firstStop_or run.tree with ⟨x, hstop⟩ | hrests
    · rcases cancellable_run.of_fails (fails_of_firstStop hlinks hgone hstop) with
        hcancelled | ⟨hfailed, htree⟩
      · cases herror.symm.trans hcancelled
      · cases herror.symm.trans hfailed
        exact ⟨hgone, ⟨x, rfl, hstop⟩, htree⟩
    · exact absurd herror (not_failed_of_turns (turns_of_rest hrests) error)
  · intro hgone
    obtain ⟨hthere, hdead⟩ := Arena.removed_iff.mp hgone
    rw [← or_assoc, ← Arena.get?_eq_none_iff] at hroot
    rcases hroot with habsent | hlive
    · rw [habsent] at hthere
      cases hthere
    · rw [hdead] at hlive
      cases hlive

/-- A namespace that has been removed, with an attribute of the user's own and one
that the compiler wrote in its first section, and a section without attributes. -/
def removedSpace : SyntaxTree where
  arena := Arena.build
    [.addRoot .compilationUnit, .addNamespace ⟨0⟩ "N", .addAttributeSection ⟨1⟩ .assembly,
      .addAttribute ⟨3⟩ "Serializable", .addAttribute ⟨3⟩ "Debuggable",
      .addAttributeSection ⟨1⟩ .wholeModule, .remove ⟨1⟩]
  root := ⟨1⟩
  annotations := ⟨[(⟨7⟩, KnownNames.debuggable)], []⟩

/-- The pass fails at the attribute that the compiler wrote, and leaves the tree. -/
theorem fails_removedSpace :
    let ran := pass.run (.start removedSpace .fresh .never)
    ran.1 = .error (.tree (.removed ⟨6⟩)) ∧ ran.2.tree = removedSpace := by
  intro ran
  obtain ⟨hleft, -, hfails⟩ := fails_at_first_stop (.start removedSpace .fresh .never)
    (Arena.reachable_build _) (by decide)
  have hsections : removedSpace.arena.children ⟨1⟩ = [⟨2⟩] ++ ⟨3⟩ :: [⟨8⟩] := by decide
  have hattributes : removedSpace.arena.attributes ⟨3⟩ = [⟨4⟩] ++ ⟨6⟩ :: [] := by decide
  have hstop : FirstStop removedSpace ⟨6⟩ := by
    refine ⟨_, _, _, hsections, fun t ht hs => ?_, by decide, .marker hattributes ?_ ?_⟩
    · rw [List.mem_singleton.mp ht] at hs
      exact absurd hs (by decide)
    · decide +kernel
    · decide +kernel
  have hfailed : ran.1 = .error (.tree (.removed ⟨6⟩)) :=
    hfails ⟨rfl, rfl⟩ ⟨_, rfl, by decide⟩ _ hstop
  exact ⟨hfailed, (hleft _ hfailed).2.2⟩

end Decompiled.AssemblyAttributes
