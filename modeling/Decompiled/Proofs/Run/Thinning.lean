import Decompiled.Proofs.Arena.Thinning
import Decompiled.Proofs.Run.Edits

/-!
# Runs thin their tree

Each announced edit cuts a subtree off or renames an identifier, so a run of
passes leaves a thinned arena, and the root and the annotations alone.

* `Run.thins_runPasses`: for a whole pipeline, however it ends.
-/

namespace Decompiled

open Work Attempt

/-- From `run` to `run'` a well-linked arena is thinned, and nothing else of
the tree changes. -/
structure Run.Thins (run run' : Run) : Prop where
  root : run'.tree.root = run.tree.root
  annotations : run'.tree.annotations = run.tree.annotations
  arena : run.tree.arena.WellLinked → run.tree.arena.Thins run'.tree.arena

namespace Run

theorem thins_of_tree {run run' : Run} (h : run'.tree = run.tree) : run.Thins run' where
  root := by rw [h]
  annotations := by rw [h]
  arena := by
    intro hlinks
    rw [h]
    exact .refl hlinks

instance : Std.Refl Run.Thins := ⟨fun _ => thins_of_tree rfl⟩

instance : IsTrans Run Run.Thins where
  trans := by
    intro first second third h h'
    refine ⟨h'.root.trans h.root, h'.annotations.trans h.annotations, fun hlinks => ?_⟩
    have hthins := h.arena hlinks
    exact hthins.trans (h'.arena hthins.links)

end Run

/-- The edit of a notice is a cut or a new name. -/
theorem Work.Announces.thins {tree : SyntaxTree} {notice : Notice} {change : Edit Unit}
    (h : Work.Announces tree notice change) (hlinks : tree.arena.WellLinked) :
    tree.arena.Thins (change tree.arena).2 := by
  cases h with
  | name hname hafter => exact Arena.thins_rename hlinks _ _
  | marker hrule hmatch => exact Arena.thins_cut hlinks _
  | emptySection hempty => exact Arena.thins_cut hlinks _
  | helper hlive hhelper hp => exact Arena.thins_cut hlinks _

theorem Run.thins_announce {run : Run} {notice : Notice} {change : Edit Unit}
    (h : Work.Announces run.tree notice change) :
    run.Thins (announce notice change run).2 := by
  rw [announce_apply]
  exact ⟨rfl, rfl, h.thins⟩

theorem Run.covers_thins : CoversPasses Run.Thins where
  abortPoint := fun _ => Run.thins_of_tree rfl
  noteStart := fun _ => Run.thins_of_tree rfl
  escaped := fun _ _ => Run.thins_of_tree rfl
  finished := fun _ _ => Run.thins_of_tree rfl
  edit := Run.thins_announce
  close := fun h => ⟨h.root, h.annotations, h.arena⟩

/-- A run of passes thins the arena of its tree. -/
theorem Run.thins_runPasses (passes : List StandardPass) (tree : SyntaxTree) (token : Token)
    (moment : Moment) :
    (Run.start tree token moment).Thins (runPasses passes tree token moment).2 :=
  along_runPasses Run.covers_thins passes tree token moment

end Decompiled
