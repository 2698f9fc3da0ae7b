import Decompiled.Pipeline

/-!
# Many trees at once

Trees that share nothing but a cancellation token are run through a pipeline
each. An error in one tree stops no other; a cancelled token stops all of them.

* `Batch.length_runs`: every tree gets a run, in order.
-/

namespace Decompiled

/-- The end of a run: how it ended, and all it left behind. -/
structure Outcome where
  result : Except TransformError Unit
  run : Run

namespace Batch

/-- Run a pipeline over one tree of a batch. -/
def runOne (pipeline : Pipeline) (token : Token) (index : Nat) (tree : SyntaxTree) :
    Outcome :=
  match Work.inSpan (.tree index) pipeline.run (.start tree token .never) with
  | (result, run) => { result, run }

/-- Run a pipeline over trees, the first of which has the given number. A tree
finds the token as the one before left it. -/
def runs (pipeline : Pipeline) (token : Token) (index : Nat) :
    List SyntaxTree → List Outcome
  | [] => []
  | tree :: rest =>
      let outcome := runOne pipeline token index tree
      outcome :: runs pipeline outcome.run.token (index + 1) rest

/-- Run a pipeline over each of many trees. -/
def transformAll (trees : List SyntaxTree) (pipeline : Pipeline) (token : Token) :
    List Outcome :=
  runs pipeline token 0 trees

/-- What a batch writes to the log: how many trees there are, and then what is
written about each tree in turn. -/
def events (outcomes : List Outcome) : List Event :=
  ⟨.transformingTrees outcomes.length, []⟩ :: outcomes.flatMap fun outcome => outcome.run.events

/-- Every tree gets a run, in order. -/
@[simp] theorem length_runs (pipeline : Pipeline) (token : Token) (index : Nat)
    (trees : List SyntaxTree) : (runs pipeline token index trees).length = trees.length := by
  induction trees generalizing token index with
  | nil => rfl
  | cons tree rest ih => simp [runs, ih]

end Batch

end Decompiled
