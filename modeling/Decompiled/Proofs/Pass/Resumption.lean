import Decompiled.Proofs.Pass.Order
import Decompiled.Proofs.Pass.Settled

/-!
# Resuming a cancelled run

A cancelled run leaves a tree on the way of its journey. Passes that had made
their tours find nothing to do when they run again; the pass that was cancelled
finds nothing to do at the nodes that it had visited and lists, of the others,
all those at which something is left to do. So the same passes, run again from
the first one, go on where the cancelled run has stopped.

* `Tour.filter_live`: what a tour does not need to visit.
* `Midway.turns`: passes that run again come to the end of the journey.
* `resumed_run_completes`: a cancelled run and the run that resumes it.
-/

namespace Decompiled

open Work Attempt

variable {tree mid tree' : SyntaxTree} {a : Arena} {pass : StandardPass} {nodes : List NodeIndex}
  {passes : List StandardPass}

/-- A tour may leave out nodes that are gone when it starts. -/
theorem Tour.filter_live (h : Tour pass nodes tree tree') (hrooted : tree.Rooted)
    (hthins : a.Thins tree.arena) :
    Tour pass (nodes.filter a.isLive) tree tree' := by
  induction h with
  | done => exact .done
  | @visit i rest tree visited tree'' hturns hvisit _ ih =>
      have hrest := ih (hvisit.rooted hrooted) (hthins.trans (hvisit.thins hrooted))
      rcases hlive : a.isLive i with _ | _
      · rw [List.filter_cons, hlive]
        rwa [hvisit.eq_of_not_live hrooted (hthins.gone hlive)] at hrest
      · rw [List.filter_cons, hlive]
        exact .visit hturns hvisit hrest

/-- A pass that has settled the tree leaves it as it is. -/
theorem StandardPass.Settled.turns_perform (h : pass.Settled tree) :
    pass.pass.perform.Turns tree tree :=
  StandardPass.turns_perform (List.append_nil _).symm
    (Yields.turns fun _ => pass.yields_of_rests h 0) fun changes => .pure changes

/-- A pass that was cancelled on its tour goes on from there. -/
theorem Tour.turns_resumed {done rest : List NodeIndex} (hregular : tree.Regular)
    (hnodes : pass.sweep.nodes tree = done ++ rest) (hdone : Tour pass done tree mid)
    (hrest : Tour pass rest mid tree') : pass.pass.perform.Turns mid tree' := by
  have hmid : mid.Regular := hdone.visits.regular hregular
  have hlisted : pass.sweep.nodes mid =
      done.filter mid.arena.isLive ++ rest.filter mid.arena.isLive := by
    rw [← List.filter_append, ← hnodes]
    exact hdone.visits.nodes_eq hregular.rooted pass
  have hrests : ∀ i ∈ done.filter mid.arena.isLive, pass.Rests mid i := by
    intro i hi
    have hthere : i ∈ pass.sweep.nodes mid := by
      rw [hlisted]
      exact List.mem_append_left _ hi
    exact hdone.rests hregular (List.mem_filter.mp hi).1 hthere
  exact StandardPass.turns_perform hlisted (Yields.turns fun _ => pass.yields_of_rests hrests 0)
    (hrest.filter_live hmid.rooted (.refl hmid.links)).turns_visitAll

/-- From a tree on the way, the same passes come to the end of the journey. -/
theorem Midway.turns (h : Midway passes tree mid tree') (hregular : tree.Regular) :
    (Pass.performAll (passes.map StandardPass.pass)).Turns mid tree' := by
  induction h with
  | within hnodes hdone hrest hjourney =>
      exact .bind (hdone.turns_resumed hregular hnodes hrest) fun _ => hjourney.turns
  | later htour hmidway ih =>
      have htoured := htour.visits.regular hregular
      have hsettled := hmidway.visits.keeps_settled htoured (htour.settled hregular)
      exact .bind hsettled.turns_perform fun _ => ih htoured
  | arrived => exact .pure ()

/-- A run that is cancelled at any moment, and then the same passes from the
first one with a fresh token over the tree that it has left, where the root is a
live compilation unit below nothing and attributes have no children but
references to types and arguments. The first run ends cancelled or has done all
there is to do; the second one succeeds, and what the two make of the tree is
what one run makes of it that nobody cancels, removed nodes included. -/
theorem resumed_run_completes (passes : List StandardPass) {tree : SyntaxTree}
    (hreachable : tree.arena.Reachable) (hfits : tree.arena.Fits)
    (hlive : tree.arena.isLive tree.root = true)
    (hparentless : tree.arena.parent? tree.root = none)
    (hunit : tree.arena.kind? tree.root = some .compilationUnit)
    (hattributes : ∀ i c, tree.arena.kind? i = some .attributeUse →
      c ∈ tree.arena.children i →
        tree.arena.kind? c = some .typeReference ∨ tree.arena.kind? c = some .argument)
    (token : Token) (moment : Moment) :
    let cut := runPasses passes tree token moment
    let resumed := runPasses passes cut.2.tree .fresh .never
    let whole := runPasses passes tree .fresh .never
    (cut.1 = .error .cancelled ∨ cut.1 = .ok () ∧ cut.2.tree = whole.2.tree) ∧
      resumed.1 = .ok () ∧ whole.1 = .ok () ∧ resumed.2.tree = whole.2.tree := by
  intro cut resumed whole
  have hregular : tree.Regular :=
    ⟨hreachable.wellLinked hfits, hlive, hparentless, hunit, fun hkind hc =>
      hattributes _ _ hkind hc⟩
  obtain ⟨tree', hjourney, hmidway, hends⟩ :=
    midway_runPasses hregular.rooted passes token moment
  obtain ⟨hok, hwhole⟩ := runPasses_of_performAll hjourney.turns
  obtain ⟨hresumes, hresumed⟩ := runPasses_of_performAll (hmidway.turns hregular)
  rw [← hwhole] at hends
  exact ⟨hends, hresumes, hok, hresumed.trans hwhole.symm⟩

/-- A run that is cancelled when it has removed the section and escaped one of
two names, and the run that goes on from there. -/
theorem resumed_run_of_mixedUnit :
    let passes := [StandardPass.assemblyAttributes, .escapeIdentifiers, .embeddedTypes]
    let cut := runPasses passes mixedUnit .fresh (.atEvent 4)
    let resumed := runPasses passes cut.2.tree .fresh .never
    let whole := runPasses passes mixedUnit .fresh .never
    cut.1 = .error .cancelled ∧ cut.2.tree.arena ≠ mixedUnit.arena ∧
      resumed.1 = .ok () ∧ resumed.2.tree = whole.2.tree := by
  have hreachable : mixedUnit.arena.Reachable := Arena.reachable_build _
  obtain ⟨hends, hresumes, -, hresumed⟩ := resumed_run_completes
    [.assemblyAttributes, .escapeIdentifiers, .embeddedTypes] hreachable (by decide) (by decide)
    (by decide) (by decide) mixedUnit_attributes .fresh (.atEvent 4)
  refine ⟨?_, by decide +kernel, hresumes, hresumed⟩
  rcases hends with hcancelled | ⟨-, hall⟩
  · exact hcancelled
  · exact absurd (congrArg SyntaxTree.arena hall) (by decide +kernel)

end Decompiled
