import Decompiled.Proofs.Arena.History
import Decompiled.Proofs.Run.Edits

/-!
# Indices stay meaningful

An index collected at some time names the same node at any later one, whatever
operations have been carried out and whatever passes have run since, successful
or not. The node hangs where it hung, or has been removed for good.

* `Arena.Later`: what operations and runs lead to.
* `Edit.Covers.passes`: a relation that covers the changes of operations covers
  those of passes.
* `history_monotone`: how two arenas of one history compare.
-/

namespace Decompiled

open Work Attempt

/-! ## Runs change arenas as operations do -/

/-- A relation between the arenas of two runs. -/
def Run.OnArenas (R : Arena → Arena → Prop) (run run' : Run) : Prop :=
  R run.tree.arena run'.tree.arena

section Covered

variable {R : Arena → Arena → Prop} [Std.Refl R]

instance : Std.Refl (Run.OnArenas R) := ⟨fun run => Std.Refl.refl run.tree.arena⟩

variable [IsTrans Arena R]

instance : IsTrans Run (Run.OnArenas R) where
  trans := fun first second third => trans_of R (a := first.tree.arena)
    (b := second.tree.arena) (c := third.tree.arena)

/-- Passes give identifiers other names and remove nodes, as operations do. -/
theorem Edit.Covers.passes (h : Edit.Covers R) : CoversPasses (Run.OnArenas R) where
  abortPoint := fun run => Std.Refl.refl run.tree.arena
  noteStart := fun run => Std.Refl.refl run.tree.arena
  escaped := fun _ run => Std.Refl.refl run.tree.arena
  finished := fun _ run => Std.Refl.refl run.tree.arena
  edit := by
    intro run notice change hannounces
    rw [announce_apply]
    show R run.tree.arena (change run.tree.arena).2
    cases hannounces with
    | name _ _ => exact Edit.along_setIdentifierName h _ _ run.tree.arena
    | marker _ _ => exact h.remove _ run.tree.arena
    | emptySection _ => exact h.remove _ run.tree.arena
    | helper _ _ _ => exact h.remove _ run.tree.arena
  close := fun h => h

end Covered

/-- The arena that a pass leaves is a later one, whether it succeeds or fails. -/
theorem StandardPass.precedes_run (pass : StandardPass) {run : Run}
    (hlinks : run.tree.arena.WellLinked) (hfits : (pass.pass.run run).2.tree.arena.Fits) :
    run.tree.arena.Precedes (pass.pass.run run).2.tree.arena := by
  obtain ⟨-, hkeeps⟩ :=
    StandardPass.along_run Arena.covers_keepsHistory.passes.toCovers pass run
  exact (hkeeps hfits hlinks).2

/-! ## Histories -/

/-- What operations on an arena and runs over it lead to: runs of one pass and of
whole pipelines, over any root and annotations, cancelled at any moment. -/
inductive Arena.Later (a : Arena) : Arena → Prop
  | now : Later a a
  | operation {b : Arena} (operation : Operation) : Later a b → Later a (operation.apply b)
  | pass {run : Run} (pass : StandardPass) : Later a run.tree.arena →
      Later a (pass.pass.run run).2.tree.arena
  | pipeline {run : Run} (passes : List StandardPass) : Later a run.tree.arena →
      Later a ((Pipeline.ofList (passes.map StandardPass.pass)).run run).2.tree.arena

namespace Arena

variable {a b : Arena}

theorem Later.runPasses (passes : List StandardPass) (tree : SyntaxTree) (token : Token)
    (moment : Moment) (h : a.Later tree.arena) :
    a.Later (Decompiled.runPasses passes tree token moment).2.tree.arena :=
  @Later.pipeline a (.start tree token moment) passes h

theorem Later.keepsHistory (h : a.Later b) : a.KeepsHistory b := by
  induction h with
  | now => exact Std.Refl.refl a
  | operation operation _ ih =>
      exact trans_of KeepsHistory ih (Edit.along_operation covers_keepsHistory operation _)
  | @pass run pass _ ih =>
      have hran := StandardPass.along_run covers_keepsHistory.passes.toCovers pass run
      exact trans_of KeepsHistory ih hran
  | @pipeline run passes _ ih =>
      have hran := along_performAll covers_keepsHistory.passes passes run
      refine trans_of KeepsHistory ih ?_
      unfold Pipeline.run
      rw [Pipeline.passes_ofList]
      exact hran

/-- An arena and what has become of it later on, as long as there is an index for
each slot. No slot disappears. A removed node stays removed, with the same parent
and the same children; a node that is still live has the parent it had, and no
node ever gets another one. A child list loses entries, and new nodes come after
the old ones. A live node below none is never removed. -/
theorem history_monotone (hreachable : a.Reachable) (hlater : a.Later b) (hfits : b.Fits) :
    a.size ≤ b.size ∧
    ∀ x node, a.get? x = some node → ∃ node', b.get? x = some node' ∧
      (node.removed = true →
        node'.removed = true ∧ node'.parent = node.parent ∧ node'.children = node.children) ∧
      (node'.removed = false → node'.parent = node.parent) ∧
      (node'.parent = node.parent ∨ node'.parent = .none) ∧
      (∃ kept added, node'.children = kept ++ added ∧ kept.Sublist node.children ∧
        ∀ c ∈ added, a.get? c = none ∧ (b.get? c).isSome) ∧
      (node.removed = false → node.parent = .none → node'.removed = false) := by
  obtain ⟨hsize, hkeeps⟩ := hlater.keepsHistory
  obtain ⟨hlinks, hprecedes⟩ :=
    hkeeps hfits (hreachable.wellLinked (Nat.le_trans hsize hfits))
  refine ⟨hsize, fun x node hget => ?_⟩
  have hthere : (a.get? x).isSome := by
    rw [hget]
    rfl
  obtain ⟨node', hget'⟩ := Option.isSome_iff_exists.mp (isSome_get?_of_size_le hsize hthere)
  -- The views of the slot, read off the two nodes.
  have hlive := isLive_of_get? hget
  have hlive' := isLive_of_get? hget'
  have hparents : b.parent? x = a.parent? x ↔ node'.parent = node.parent := by
    rw [parent?_of_get? hget, parent?_of_get? hget', toOption_inj]
  have hchildren := children_of_get? hget
  have hchildren' := children_of_get? hget'
  have hnone : ∀ {c : Arena} {m : Node}, c.get? x = some m →
      (c.parent? x = none ↔ m.parent = .none) := by
    intro c m hm
    rw [parent?_of_get? hm]
    exact toOption_inj (j := .none)
  refine ⟨node', hget', fun hremoved => ?_, fun hkept => ?_, ?_, ?_, fun hkept hroot => ?_⟩
  · obtain ⟨hdead, hparent, hlist⟩ := hprecedes.settled hthere (by rw [hlive, hremoved]; rfl)
    rw [hlive'] at hdead
    rw [hchildren, hchildren'] at hlist
    exact ⟨by simpa using hdead, hparents.mp hparent, hlist⟩
  · exact hparents.mp (hprecedes.hangs hthere (by rw [hlive', hkept]; rfl))
  · exact (hprecedes.hung hthere).imp hparents.mp (hnone hget').mp
  · obtain ⟨kept, added, hlist, hsub, hnew⟩ := hprecedes.lists hthere
    rw [hchildren] at hsub
    rw [hchildren'] at hlist
    refine ⟨kept, added, hlist, hsub, fun c hc => ⟨?_, ?_⟩⟩
    · rcases hold : a.get? c with _ | m
      · rfl
      · exact absurd (bounds_of_get? hold).2 (Nat.not_lt_of_le (hnew c hc))
    · refine hlinks.child_there (p := x) ?_
      rw [hchildren', hlist]
      exact List.mem_append_right kept hc
  · have hstays := hprecedes.stays (x := x) (by rw [hlive, hkept]; rfl) ((hnone hget).mpr hroot)
    rw [hlive'] at hstays
    simpa using hstays

/-- Of two types in a namespace one is removed at first. A run gives the other
one a name that can be written, and then it is removed too and a third one is
added. The one removed first is as it was left. -/
theorem history_of_namespace :
    let a := build
      [.addRoot .compilationUnit, .addNamespace ⟨0⟩ "N",
        .addTypeDeclaration ⟨1⟩ .classType "A", .addTypeDeclaration ⟨1⟩ .classType "b-c",
        .remove ⟨3⟩]
    let escaped := (runPasses [.escapeIdentifiers] ⟨a, ⟨0⟩, ⟨[], []⟩⟩ .fresh .never).2.tree.arena
    let b := (Operation.addTypeDeclaration ⟨1⟩ .classType "D").apply
      ((Operation.remove ⟨5⟩).apply escaped)
    a.children ⟨1⟩ = [⟨2⟩, ⟨5⟩] ∧ escaped.identifierName? ⟨6⟩ = some "b_002Dc" ∧
      b.children ⟨1⟩ = [⟨2⟩, ⟨7⟩] ∧
      ∃ node node', a.get? ⟨3⟩ = some node ∧ b.get? ⟨3⟩ = some node' ∧
        node'.removed = true ∧ node'.parent = node.parent ∧ node'.children = node.children := by
  intro a escaped b
  have hreachable : a.Reachable := reachable_build _
  have hescaped : a.Later escaped := .runPasses [.escapeIdentifiers] _ .fresh .never .now
  have hlater : a.Later b := .operation _ (.operation _ hescaped)
  obtain ⟨-, hnodes⟩ := history_monotone hreachable hlater (by decide +kernel)
  obtain ⟨node, hget, hremoved⟩ :
      ∃ node, a.get? ⟨3⟩ = some node ∧ node.removed = true := ⟨_, rfl, by decide⟩
  obtain ⟨node', hget', hsettled, -⟩ := hnodes ⟨3⟩ node hget
  exact ⟨by decide, by decide +kernel, by decide +kernel, node, node', hget, hget',
    hsettled hremoved⟩

end Arena

end Decompiled
