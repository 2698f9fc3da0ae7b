import Decompiled.Proofs.Steps
import Decompiled.Pipeline

/-!
# What sequences inherit from their parts

Much of what holds of the steps of a run holds of a sequence as soon as it holds
of the parts of the sequence. If it holds of abort points too, then sweeps have
it from their visits, and runs of a pipeline from the passes.

* `Work.Composable`, `Work.Inherited`: such a property, whatever is said of a step.
* `Work.Inherited.visitAll`, `Work.Inherited.sweep`: from the visits to the sweep.
* `Work.Inherited.performAll`: from the passes of a pipeline to its run.
* `Work.InheritedByPasses.perform`: from a pass alone to the pass in a pipeline.
* `Work.Keeps.inherited`: what is kept of the tree, wherever the work stops.
-/

namespace Decompiled

namespace Work

/-- A sequence has the property if its parts have it. -/
structure Composable (P : {α : Type} → Work α → Prop) : Prop where
  pure : ∀ {α : Type} (value : α), P (Pure.pure value : Work α)
  bind : ∀ {α β : Type} {x : Work α} {f : α → Work β},
    P x → (∀ value, P (f value)) → P (x >>= f)

/-- Abort points have it too. -/
structure Inherited (P : {α : Type} → Work α → Prop) : Prop extends Composable P where
  abortPoint : P Work.abortPoint

/-- What a pipeline does around a pass has the property too. -/
structure InheritedByPasses (P : {α : Type} → Work α → Prop) : Prop extends Inherited P where
  count : P (look fun tree => tree.arena.liveCount)
  noteStart : P Pass.noteStart
  finished : ∀ removed, P (record (.transformFinished removed))
  inSpan : ∀ {work : Work Unit} (span : Span), P work → P (Work.inSpan span work)

variable {P : {α : Type} → Work α → Prop}

/-- Looking at an identifier asks for its name, and perhaps tells and changes it. -/
theorem Composable.name_visit (h : Composable P) {i : NodeIndex}
    (hlook : P (look fun tree => tree.arena.identifierName? i))
    (hrecord : ∀ notice, P (record notice))
    (hrename : ∀ name, P (edit (Edit.setIdentifierName i name))) :
    P (EscapeIdentifiers.visit i) := by
  refine h.bind hlook fun name? => ?_
  rcases name? with _ | name
  · exact h.pure 0
  · simp only
    rcases Identifier.escape? name with _ | escaped
    · exact h.pure 0
    · exact h.bind (hrecord _) fun _ => h.bind (hrename escaped) fun _ => h.pure 1

namespace Inherited

variable (h : Inherited P)

include h

theorem visitAll {sweep : Sweep} {nodes : List NodeIndex}
    (hvisit : ∀ i ∈ nodes, P (sweep.visit i)) (changes : Nat) :
    P (sweep.visitAll changes nodes) := by
  induction nodes generalizing changes with
  | nil => exact h.pure changes
  | cons i rest ih =>
      have hrest := ih fun j hj => hvisit j (List.mem_cons_of_mem i hj)
      refine h.bind h.abortPoint fun _ => ?_
      exact h.bind (hvisit i List.mem_cons_self) fun more => hrest (changes + more)

theorem sweep {sweep : Sweep} (hnodes : P (look sweep.nodes))
    (hvisit : ∀ i, P (sweep.visit i)) (hfinish : ∀ count, P (sweep.finish count)) :
    P sweep.run :=
  h.bind hnodes fun _ => h.bind (h.visitAll (fun i _ => hvisit i) 0) hfinish

theorem performAll {passes : List Pass} (hperform : ∀ pass ∈ passes, P pass.perform) :
    P (Pass.performAll passes) := by
  induction passes with
  | nil => exact h.pure ()
  | cons pass rest ih =>
      have hrest := ih fun other hother => hperform other (List.mem_cons_of_mem pass hother)
      exact h.bind (hperform pass List.mem_cons_self) fun _ => hrest

end Inherited

namespace InheritedByPasses

variable (h : InheritedByPasses P)

include h

theorem perform {pass : Pass} (hrun : P pass.run) : P pass.perform := by
  refine h.bind h.abortPoint fun _ => h.inSpan _ ?_
  refine h.bind h.count fun _ => h.bind h.noteStart fun _ => h.bind hrun fun _ => ?_
  exact h.bind h.count fun _ => h.finished _

/-- Passes of this library, run in any order. -/
theorem performStandard {passes : List StandardPass}
    (hrun : ∀ pass ∈ passes, P pass.pass.run) :
    P (Pass.performAll (passes.map StandardPass.pass)) :=
  h.performAll (List.forall_mem_map.mpr fun pass hpass => h.perform (hrun pass hpass))

end InheritedByPasses

/-- What holds of the tree before the work holds of the tree that it leaves,
whether it succeeds or fails. -/
def Keeps (I : SyntaxTree → Prop) {α : Type} (work : Work α) : Prop :=
  ∀ run : Run, I run.tree → I (work run).2.tree

/-- What the passes do to the tree is all that a pipeline does to it. -/
theorem Keeps.inherited (I : SyntaxTree → Prop) : InheritedByPasses fun work => work.Keeps I where
  pure := fun _ _ h => h
  bind := fun hx hf run h =>
    Attempt.state_bind (P := fun left : Run => I left.tree) (fun _ _ => hx run h)
      fun value _ => hf value _ (hx run h)
  abortPoint := fun _ h => h
  count := fun _ h => h
  noteStart := fun _ h => h
  finished := fun _ _ h => h
  inSpan := fun span hwork run h => hwork { run with spans := run.spans ++ [span] } h

end Work

end Decompiled
