import Decompiled.Proofs.Run.Undisturbed

/-!
# Undisturbed runs that fail

An undisturbed run fails at one step. The steps before it have succeeded, and
none comes after it, so the run leaves the tree that this step was made on.

* `Work.Fails`: how a step fails, in any undisturbed run.
* `Work.Fails.after`: a step that succeeds and one that fails.
* `Sweep.fails_run`: a sweep fails with the first visit that fails.
-/

namespace Decompiled

open Work Attempt

namespace Work

variable {α β : Type} {tree tree' : SyntaxTree} {error : TransformError}

/-- In each undisturbed run over the first tree, the step fails with the error
and leaves the second tree. -/
def Fails (work : Work α) (error : TransformError) (tree tree' : SyntaxTree) : Prop :=
  ∀ run : Run, run.Undisturbed → run.tree = tree →
    (work run).1 = .error error ∧ (work run).2.tree = tree'

namespace Fails

theorem fail (error : TransformError) : Fails (Attempt.fail error : Work α) error tree tree :=
  fun _ _ htree => ⟨rfl, htree⟩

/-- An edit that fails and changes nothing. -/
theorem edit {change : Edit α} {error : TreeError}
    (h : change tree.arena = (.error error, tree.arena)) :
    Fails (Work.edit change) (.tree error) tree tree := by
  rintro run - rfl
  rw [edit_apply, h]
  exact ⟨rfl, rfl⟩

/-- Nothing comes after a step that fails. -/
theorem bind {x : Work α} {f : α → Work β} (hx : x.Fails error tree tree') :
    (x >>= f).Fails error tree tree' := by
  intro run hrun htree
  obtain ⟨herror, hleft⟩ := hx run hrun htree
  have hran : x run = (.error error, (x run).2) := Prod.ext herror rfl
  rw [bind_of_error hran]
  exact ⟨rfl, hleft⟩

/-- A step that succeeds comes before one that fails. -/
theorem after {tree'' : SyntaxTree} {x : Work α} {f : α → Work β} (hx : x.Turns tree tree')
    (hf : ∀ value, (f value).Fails error tree' tree'') : (x >>= f).Fails error tree tree'' := by
  intro run hrun htree
  obtain ⟨value, hvalue, hrun', htree'⟩ := hx run hrun htree
  have hran : x run = (.ok value, (x run).2) := Prod.ext hvalue rfl
  rw [bind_of_ok hran]
  exact hf value _ hrun' htree'

theorem look_bind {question : SyntaxTree → α} {f : α → Work β}
    (h : (f (question tree)).Fails error tree tree') :
    (Work.look question >>= f).Fails error tree tree' := by
  rintro run hrun rfl
  rw [look_bind_apply]
  exact h run hrun rfl

end Fails

end Work

/-- A sweep fails at the first visit that fails, and leaves the tree that the
visits before it have made. -/
theorem Sweep.fails_run {sweep : Sweep} {done rest : List NodeIndex} {i : NodeIndex}
    {tree tree' tree'' : SyntaxTree} {error : TransformError}
    (hlist : sweep.nodes tree = done ++ i :: rest)
    (hdone : ∀ changes, (sweep.visitAll changes done).Turns tree tree')
    (hvisit : (sweep.visit i).Fails error tree' tree'') : sweep.run.Fails error tree tree'' := by
  apply Fails.look_bind
  rw [hlist, sweep.visitAll_append]
  refine .bind (.after (hdone 0) fun changes => ?_)
  exact .after .abortPoint fun _ => hvisit.bind

end Decompiled
