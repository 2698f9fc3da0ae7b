import Decompiled.Proofs.Run.Failure
import Decompiled.Proofs.Run.Textless

/-!
# Runs that may be cancelled

Nothing but an abort point looks at the token. Whoever cancels a run and when, it
ends at an abort point, or it does what it would do if nobody cancelled it.

* `Run.untimed`: the run that nobody cancels.
* `Work.removals_untimed`: what visits are made of does the same in both.
* `Work.Cancellable`: what holds of each step, and of each sequence of steps.
* `Work.Cancellable.of_turns`, `Work.Cancellable.of_fails`: what is known of
  undisturbed runs, told of all runs.
-/

namespace Decompiled

open Work Attempt

/-- The run, as if nobody had cancelled it or ever would. -/
def Run.untimed (run : Run) : Run := { run with token := .fresh, moment := .never }

theorem Work.removals_untimed : InheritedByRemovals fun work => work.Ignores Run.untimed where
  pure := .pure
  bind := .bind
  look := fun _ _ => rfl
  record := fun _ _ => rfl
  remove := by
    intro i run
    rw [edit_apply, edit_apply]
    rfl
  fail := fun _ => .fail _

theorem EscapeIdentifiers.ignores_visit (i : NodeIndex) :
    (EscapeIdentifiers.visit i).Ignores Run.untimed := by
  have hrename : ∀ name, (edit (Edit.setIdentifierName i name)).Ignores Run.untimed := by
    intro name run
    rw [edit_apply, edit_apply]
    rfl
  exact removals_untimed.name_visit (fun _ => rfl) removals_untimed.record hrename

namespace Work

variable {α β : Type} {tree tree' : SyntaxTree} {run : Run} {work : Work α}

/-- A step that does not look at the token succeeds in any run if it does in
undisturbed ones. -/
theorem Turns.in_any (h : work.Turns tree tree') (hignores : work.Ignores Run.untimed)
    (htree : run.tree = tree) : ∃ value, (work run).1 = .ok value ∧ (work run).2.tree = tree' := by
  obtain ⟨value, hvalue, -, hleft⟩ := h run.untimed ⟨rfl, rfl⟩ htree
  rw [hignores run] at hvalue hleft
  exact ⟨value, hvalue, hleft⟩

/-- In each run the step ends cancelled, or as it does if nobody cancels it. -/
def Cancellable (work : Work α) : Prop :=
  ∀ run, (work run).1 = .error .cancelled ∨
    work run.untimed = ((work run).1, (work run).2.untimed)

namespace Cancellable

theorem of_ignores (h : work.Ignores Run.untimed) : work.Cancellable :=
  fun run => .inr (h run)

theorem abortPoint : Cancellable Work.abortPoint := by
  intro run
  rw [abortPoint_apply run]
  simp only
  split
  · exact .inl rfl
  · exact .inr rfl

theorem bind {x : Work α} {f : α → Work β} (hx : x.Cancellable)
    (hf : ∀ value, (f value).Cancellable) : (x >>= f).Cancellable := by
  intro run
  rcases hran : x run with ⟨error | value, left⟩
  · rw [bind_of_error hran]
    rcases hx run with hcancelled | hsame
    · rw [hran] at hcancelled
      exact .inl (congrArg Except.error (Except.error.inj hcancelled))
    · rw [hran] at hsame
      exact .inr (bind_of_error hsame)
  · rw [bind_of_ok hran]
    rcases hx run with hcancelled | hsame
    · rw [hran] at hcancelled
      cases hcancelled
    · rw [hran] at hsame
      rw [bind_of_ok hsame]
      exact hf value left

theorem inherited : Inherited fun work => work.Cancellable where
  pure := fun value => .of_ignores (.pure value)
  bind := .bind
  abortPoint := .abortPoint

/-- What undisturbed runs do, a run does unless it is cancelled. -/
theorem of_turns (h : work.Cancellable) (hturns : work.Turns run.tree tree') :
    (work run).1 = .error .cancelled ∨
      ∃ value, (work run).1 = .ok value ∧ (work run).2.tree = tree' := by
  obtain ⟨value, hvalue, -, hleft⟩ := hturns run.untimed ⟨rfl, rfl⟩ rfl
  refine (h run).imp_right fun hsame => ?_
  rw [hsame] at hvalue hleft
  exact ⟨value, hvalue, hleft⟩

/-- How undisturbed runs fail, a run fails unless it is cancelled before. -/
theorem of_fails {error : TransformError} (h : work.Cancellable)
    (hfails : work.Fails error run.tree tree') :
    (work run).1 = .error .cancelled ∨
      ((work run).1 = .error error ∧ (work run).2.tree = tree') := by
  obtain ⟨herror, hleft⟩ := hfails run.untimed ⟨rfl, rfl⟩ rfl
  refine (h run).imp_right fun hsame => ?_
  rw [hsame] at herror hleft
  exact ⟨herror, hleft⟩

end Cancellable

end Work

theorem Sweep.cancellable_run {sweep : Sweep}
    (hvisit : ∀ i, (sweep.visit i).Ignores Run.untimed)
    (hfinish : ∀ count, (sweep.finish count).Ignores Run.untimed) : sweep.run.Cancellable := by
  have hnodes : (look sweep.nodes).Ignores Run.untimed := fun _ => rfl
  exact Cancellable.inherited.sweep (.of_ignores hnodes) (fun i => .of_ignores (hvisit i))
    fun count => .of_ignores (hfinish count)

end Decompiled
