import Decompiled.SyntaxTree
import Decompiled.Log.Event
import Decompiled.Run.Token

/-!
# Runs over a tree

`Run` is the state that passes work on: the tree, the token, and the log
written so far. `Work` is a step on it, and a step that fails leaves the tree
and the log as they were when it failed.

* `Work.abortPoint_apply`: when an abort point lets a run go on.
* `Work.record_apply`: what writing to the log changes.
* `Work.edit_apply`: an edit changes the arena alone.
-/

namespace Decompiled

/-- A run over a tree, at some point of it. -/
structure Run where
  tree : SyntaxTree
  token : Token
  /-- When somebody else cancels the token. -/
  moment : Moment
  /-- How many abort points have been passed or met. -/
  abortPoints : Nat
  /-- How many passes of a pipeline have been started. -/
  started : Nat
  log : Array Event
  /-- The spans that are open, the outermost first. -/
  spans : List Span

namespace Run

/-- A run over a tree before its first step. -/
def start (tree : SyntaxTree) (token : Token) (moment : Moment) : Run :=
  { tree, token, moment, abortPoints := 0, started := 0, log := #[], spans := [] }

/-- The events written so far, in order. -/
def events (run : Run) : List Event := run.log.toList

end Run

/-- A step of a run. -/
abbrev Work (α : Type) : Type := Attempt Run TransformError α

namespace Work

variable {α : Type}

/-- End the run if its token is cancelled. -/
def abortPoint : Work Unit := fun run =>
  let count := run.abortPoints + 1
  let token := run.token.cancelIf (run.moment == Moment.atAbortPoint count)
  (if token.cancelled then .error .cancelled else .ok (),
    { run with token, abortPoints := count })

/-- Write a notice to the log, in the spans that are open. -/
def record (notice : Notice) : Work Unit :=
  Attempt.update fun run =>
    { run with
      log := run.log.push ⟨notice, run.spans⟩
      token := run.token.cancelIf (run.moment == Moment.atEvent (run.log.size + 1)) }

/-- A question about the tree. -/
def look (question : SyntaxTree → α) : Work α :=
  Attempt.view fun run => question run.tree

/-- Edit the tree. -/
def edit (change : Edit α) : Work α :=
  Attempt.focus
    (fun ⟨⟨arena, root, annotations⟩, token, moment, abortPoints, started, log, spans⟩ =>
      (arena, fun arena =>
        ⟨⟨arena, root, annotations⟩, token, moment, abortPoints, started, log, spans⟩))
    .tree change

/-- Cancel the token. -/
def cancel : Work Unit :=
  Attempt.update fun run => { run with token := run.token.cancel }

/-- Work in a span of its own, which is closed afterwards in any case. -/
def inSpan (span : Span) (work : Work α) : Work α := fun run =>
  let outer := run.spans
  match work { run with spans := outer ++ [span] } with
  | (result, run) => (result, { run with spans := outer })

/-! ## What each step does to a run -/

/-- An abort point lets a run go on unless its token has been cancelled by
then. -/
theorem abortPoint_apply (run : Run) :
    abortPoint run =
      let token :=
        run.token.cancelIf (run.moment == Moment.atAbortPoint (run.abortPoints + 1))
      (if token.cancelled then .error .cancelled else .ok (),
        { run with token, abortPoints := run.abortPoints + 1 }) := rfl

/-- Writing to the log adds one event, and cancels the token if the moment has
come. -/
theorem record_apply (notice : Notice) (run : Run) :
    record notice run =
      (.ok (),
        { run with
          log := run.log.push ⟨notice, run.spans⟩
          token :=
            run.token.cancelIf (run.moment == Moment.atEvent (run.log.size + 1)) }) := rfl

@[simp] theorem look_apply (question : SyntaxTree → α) (run : Run) :
    look question run = (.ok (question run.tree), run) := rfl

/-- An edit changes the arena alone. -/
theorem edit_apply (change : Edit α) (run : Run) :
    edit change run =
      ((change run.tree.arena).1.mapError .tree,
        { run with tree := { run.tree with arena := (change run.tree.arena).2 } }) := by
  unfold edit
  rw [Attempt.focus_apply]

/-- A span is closed again whatever happens in it. -/
theorem inSpan_apply (span : Span) (work : Work α) (run : Run) :
    inSpan span work run =
      ((work { run with spans := run.spans ++ [span] }).1,
        { (work { run with spans := run.spans ++ [span] }).2 with
          spans := run.spans }) := rfl

end Work

end Decompiled
