import Decompiled.Proofs.Run.Edits

/-!
# Work in single steps

When several runs are under way at once, each goes one step at a time. `Steps`
is a piece of work laid out in its steps: what is asked of the tree, what is
done, and where the token is looked at. All that the passes do is laid out here,
and doing the steps one after the other is the work itself.

* `Steps.perform`: doing all steps.
* `Stepwise`: a piece of work together with its steps.
* `StandardPass.stepwisePerformAll`: the steps of a run of passes.
-/

namespace Decompiled

open Attempt

variable {α β : Type}

/-- What a run can do in one step, whether its token is cancelled or not. -/
inductive Act where
  | record (notice : Notice)
  | edit (change : Edit Unit)
  | noteStart
  | enter (span : Span)
  | leave

/-- What the step does. -/
def Act.work : Act → Work Unit
  | record notice => Work.record notice
  | edit change => Work.edit change
  | noteStart => Pass.noteStart
  | enter span => Attempt.update fun run => { run with spans := run.spans ++ [span] }
  | leave => Attempt.update fun run => { run with spans := run.spans.dropLast }

/-- The steps of a piece of work, each with what comes after it. -/
inductive Steps (α : Type) where
  | done (result : Except TransformError α)
  | look (next : SyntaxTree → Steps α)
  /-- An abort point, with what comes after it when it is passed and when it is
  not. -/
  | check (passed stopped : Steps α)
  | act (a : Act) (next : Except TransformError Unit → Steps α)

namespace Steps

/-- Do all steps, one after the other. -/
def perform : Steps α → Work α
  | done result => fun run => (result, run)
  | look next => fun run => (next run.tree).perform run
  | check passed stopped => fun run =>
      match Work.abortPoint run with
      | (.ok (), run) => passed.perform run
      | (.error _, run) => stopped.perform run
  | act a next => fun run => (next (a.work run).1).perform (a.work run).2

/-- The steps of a sequence. -/
def bind : Steps α → (α → Steps β) → Steps β
  | done (.ok value), f => f value
  | done (.error error), _ => done (.error error)
  | look next, f => look fun tree => (next tree).bind f
  | check passed stopped, f => check (passed.bind f) (stopped.bind f)
  | act a next, f => act a fun result => (next result).bind f

/-- The same steps, with a span left at the end, however that comes about. -/
def leaving : Steps α → Steps α
  | done result => act .leave fun _ => done result
  | look next => look fun tree => (next tree).leaving
  | check passed stopped => check passed.leaving stopped.leaving
  | act a next => act a fun result => (next result).leaving

/-- The steps of work in a span of its own. -/
def inSpan (span : Span) (steps : Steps α) : Steps α := .act (.enter span) fun _ => steps.leaving

theorem perform_bind (steps : Steps α) (f : α → Steps β) :
    (steps.bind f).perform = steps.perform >>= fun value => (f value).perform := by
  funext run
  induction steps generalizing run with
  | done result => rcases result with _ | _ <;> rfl
  | look next ih => exact ih run.tree run
  | check passed stopped ihpassed ihstopped =>
      rw [bind_apply]
      simp only [bind, perform]
      rcases Work.abortPoint run with ⟨_ | ⟨⟩, left⟩
      · exact ihstopped left
      · exact ihpassed left
  | act a next ih => exact ih (a.work run).1 (a.work run).2

theorem perform_leaving (steps : Steps α) (run : Run) :
    steps.leaving.perform run =
      ((steps.perform run).1,
        { (steps.perform run).2 with spans := (steps.perform run).2.spans.dropLast }) := by
  induction steps generalizing run with
  | done result => rfl
  | look next ih => exact ih run.tree run
  | check passed stopped ihpassed ihstopped =>
      simp only [leaving, perform]
      rcases Work.abortPoint run with ⟨_ | ⟨⟩, left⟩
      · exact ihstopped left
      · exact ihpassed left
  | act a next ih => exact ih (a.work run).1 (a.work run).2

/-! ## What comes after an abort point that is not passed -/

/-- Nothing is done any more but to leave spans, and the end is that of a
cancelled run. -/
def WindsDown : Steps α → Prop
  | done result => result = .error .cancelled
  | look _ => False
  | check _ _ => False
  | act a next => a = .leave ∧ ∀ result, (next result).WindsDown

/-- Each abort point that is not passed is the last thing of any effect. -/
def Orderly : Steps α → Prop
  | done _ => True
  | look next => ∀ tree, (next tree).Orderly
  | check passed stopped => passed.Orderly ∧ stopped.WindsDown
  | act _ next => ∀ result, (next result).Orderly

theorem WindsDown.bind {steps : Steps α} (h : steps.WindsDown) (f : α → Steps β) :
    (steps.bind f).WindsDown := by
  induction steps with
  | done result =>
      replace h : result = .error .cancelled := h
      subst h
      exact rfl
  | look _ _ => exact h.elim
  | check _ _ _ _ => exact h.elim
  | act a next ih => exact ⟨h.1, fun result => ih result (h.2 result)⟩

theorem WindsDown.leaving {steps : Steps α} (h : steps.WindsDown) : steps.leaving.WindsDown := by
  induction steps with
  | done result => exact ⟨rfl, fun _ => h⟩
  | look _ _ => exact h.elim
  | check _ _ _ _ => exact h.elim
  | act a next ih => exact ⟨h.1, fun result => ih result (h.2 result)⟩

theorem Orderly.bind {steps : Steps α} (h : steps.Orderly) {f : α → Steps β}
    (hf : ∀ value, (f value).Orderly) : (steps.bind f).Orderly := by
  induction steps with
  | done result =>
      rcases result with _ | value
      · exact trivial
      · exact hf value
  | look next ih => exact fun tree => ih tree (h tree)
  | check passed stopped ihpassed _ => exact ⟨ihpassed h.1, h.2.bind f⟩
  | act a next ih => exact fun result => ih result (h result)

theorem Orderly.leaving {steps : Steps α} (h : steps.Orderly) : steps.leaving.Orderly := by
  induction steps with
  | done result => exact fun _ => trivial
  | look next ih => exact fun tree => ih tree (h tree)
  | check passed stopped ihpassed _ => exact ⟨ihpassed h.1, h.2.leaving⟩
  | act a next ih => exact fun result => ih result (h result)

end Steps

/-! ## Work and its steps -/

/-- A piece of work that leaves open spans as they are, with its steps. -/
structure Stepwise (work : Work α) where
  steps : Steps α
  perform_steps : steps.perform = work
  orderly : steps.Orderly
  balanced : ∀ run, (work run).2.spans = run.spans

namespace Stepwise

/-- No step at all. -/
def pure (value : α) : Stepwise (Pure.pure value) where
  steps := .done (.ok value)
  perform_steps := rfl
  orderly := trivial
  balanced := fun _ => rfl

/-- No step either, and an error in the end. -/
def fail (error : TransformError) : Stepwise (Attempt.fail error : Work α) where
  steps := .done (.error error)
  perform_steps := rfl
  orderly := trivial
  balanced := fun _ => rfl

/-- A question is one step, and its answer the end. -/
def look (question : SyntaxTree → α) : Stepwise (Work.look question) where
  steps := .look fun tree => .done (.ok (question tree))
  perform_steps := rfl
  orderly := fun _ => trivial
  balanced := fun _ => rfl

/-- An abort point that is not passed is the end of a cancelled run. -/
def abortPoint : Stepwise Work.abortPoint where
  steps := .check (.done (.ok ())) (.done (.error .cancelled))
  perform_steps := by
    funext run
    simp only [Steps.perform]
    rcases hpoint : Work.abortPoint run with ⟨error | ⟨⟩, left⟩
    · rw [Work.cancelled_of_abortPoint hpoint]
    · rfl
  orderly := ⟨trivial, rfl⟩
  balanced := fun _ => rfl

/-- A notice is written in one step. -/
def record (notice : Notice) : Stepwise (Work.record notice) where
  steps := .act (.record notice) .done
  perform_steps := rfl
  orderly := fun _ => trivial
  balanced := fun _ => rfl

/-- An edit is one step, however many slots it changes. -/
def edit (change : Edit Unit) : Stepwise (Work.edit change) where
  steps := .act (.edit change) .done
  perform_steps := rfl
  orderly := fun _ => trivial
  balanced := fun run => by rw [Work.edit_apply]

/-- That a pass starts is noted in one step. -/
def noteStart : Stepwise Pass.noteStart where
  steps := .act .noteStart .done
  perform_steps := rfl
  orderly := fun _ => trivial
  balanced := fun _ => rfl

/-- The steps of the parts, one after the other. -/
def bind {x : Work α} {f : α → Work β} (hx : Stepwise x) (hf : ∀ value, Stepwise (f value)) :
    Stepwise (x >>= f) where
  steps := hx.steps.bind fun value => (hf value).steps
  perform_steps := by
    rw [Steps.perform_bind, hx.perform_steps]
    congr 1
    funext value
    exact (hf value).perform_steps
  orderly := hx.orderly.bind fun value => (hf value).orderly
  balanced := fun run =>
    state_bind (P := fun left : Run => left.spans = run.spans) (fun _ _ => hx.balanced run)
      fun value _ => ((hf value).balanced _).trans (hx.balanced run)

/-- The condition is known before the first step. -/
def ite {c : Prop} [Decidable c] {x y : Work α} (hx : Stepwise x) (hy : Stepwise y) :
    Stepwise (if c then x else y) where
  steps := if c then hx.steps else hy.steps
  perform_steps := by
    split
    · exact hx.perform_steps
    · exact hy.perform_steps
  orderly := by
    split
    · exact hx.orderly
    · exact hy.orderly
  balanced := by
    split
    · exact hx.balanced
    · exact hy.balanced

/-- A span that is entered is left again, so the spans that were open before are
open after. -/
def inSpan (span : Span) {work : Work α} (h : Stepwise work) :
    Stepwise (Work.inSpan span work) where
  steps := .inSpan span h.steps
  perform_steps := by
    funext run
    have hopened := h.balanced { run with spans := run.spans ++ [span] }
    show h.steps.leaving.perform { run with spans := run.spans ++ [span] } = _
    rw [Steps.perform_leaving, h.perform_steps, Work.inSpan_apply, hopened,
      List.dropLast_concat]
  orderly := fun _ => h.orderly.leaving
  balanced := fun _ => rfl

end Stepwise

/-! ## The steps of the passes -/

namespace EscapeIdentifiers

/-- The steps of looking at one identifier. -/
def stepwiseVisit (index : NodeIndex) : Stepwise (visit index) := by
  refine .bind (.look _) fun name? => ?_
  cases name? with
  | none => exact .pure 0
  | some name =>
      dsimp only
      cases Identifier.escape? name with
      | none => exact .pure 0
      | some _ => exact .bind (.record _) fun _ => .bind (.edit _) fun _ => .pure 1

end EscapeIdentifiers

namespace AssemblyAttributes

/-- The steps at the attributes of a section: a question for each of them, and up to
three more. -/
def stepwiseRemoveMatching (rule : SyntaxTree → NodeIndex → Bool) :
    (indices : List NodeIndex) → Stepwise (removeMatching rule indices)
  | [] => .pure ()
  | _ :: rest =>
      .bind (.look _) fun _ =>
        .ite
          (.bind (.look _) fun _ => .bind (.record _) fun _ => .bind (.edit _) fun _ =>
            stepwiseRemoveMatching rule rest)
          (stepwiseRemoveMatching rule rest)

/-- The steps at the section itself. -/
def stepwiseRemoveIfEmpty (index : NodeIndex) : Stepwise (removeIfEmpty index) :=
  .bind (.look _) fun _ => .ite (.bind (.record _) fun _ => .edit _) (.pure ())

/-- The steps of cleaning one section. -/
def stepwiseVisit (index : NodeIndex) : Stepwise (visit index) :=
  .bind (.look _) fun target? =>
    match target?.bind rule? with
    | none => .pure 0
    | some rule =>
        .bind (.look _) fun attributes =>
          .bind (stepwiseRemoveMatching rule attributes) fun _ =>
            .bind (stepwiseRemoveIfEmpty index) fun _ => .pure 0

end AssemblyAttributes

namespace EmbeddedTypes

/-- The steps of removing a helper type, alone or with its namespace. -/
def stepwiseRemoveHelper (index : NodeIndex) : Stepwise (removeHelper index) :=
  .bind (.look _) fun parent? =>
    match parent? with
    | none => .fail _
    | some _ => .bind (.look _) fun _ => .bind (.record _) fun _ => .edit _

/-- The steps of looking at one declaration. -/
def stepwiseVisit (index : NodeIndex) : Stepwise (visit index) :=
  .bind (.look _) fun _ =>
    .ite (.bind (stepwiseRemoveHelper index) fun _ => .pure 0) (.pure 0)

end EmbeddedTypes

namespace Sweep

variable {sweep : Sweep}

/-- The steps of visits in order, with an abort point before each. -/
def stepwiseVisitAll (hvisit : ∀ index, Stepwise (sweep.visit index)) :
    (changes : Nat) → (nodes : List NodeIndex) → Stepwise (sweep.visitAll changes nodes)
  | changes, [] => .pure changes
  | changes, index :: rest =>
      .bind .abortPoint fun _ => .bind (hvisit index) fun more =>
        stepwiseVisitAll hvisit (changes + more) rest

/-- The steps of a sweep: its list is made in the first. -/
def stepwiseRun (hvisit : ∀ index, Stepwise (sweep.visit index))
    (hfinish : ∀ count, Stepwise (sweep.finish count)) : Stepwise sweep.run :=
  .bind (.look _) fun nodes => .bind (stepwiseVisitAll hvisit 0 nodes) hfinish

end Sweep

namespace StandardPass

/-- The steps of each pass of this library. -/
def stepwiseRun : (pass : StandardPass) → Stepwise pass.pass.run
  | escapeIdentifiers => Sweep.stepwiseRun EscapeIdentifiers.stepwiseVisit fun _ => .record _
  | assemblyAttributes => Sweep.stepwiseRun AssemblyAttributes.stepwiseVisit fun _ => .pure ()
  | embeddedTypes => Sweep.stepwiseRun EmbeddedTypes.stepwiseVisit fun _ => .pure ()

/-- The steps of a pass as part of a pipeline. -/
def stepwisePerform (pass : StandardPass) : Stepwise pass.pass.perform :=
  .bind .abortPoint fun _ => .inSpan _ <|
    .bind (.look _) fun _ => .bind .noteStart fun _ => .bind pass.stepwiseRun fun _ =>
      .bind (.look _) fun _ => .record _

/-- The steps of passes, one after the other. -/
def stepwisePerformAll :
    (passes : List StandardPass) → Stepwise (Pass.performAll (passes.map pass))
  | [] => .pure ()
  | pass :: rest => .bind pass.stepwisePerform fun _ => stepwisePerformAll rest

end StandardPass

end Decompiled
