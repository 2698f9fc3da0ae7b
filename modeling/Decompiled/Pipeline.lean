import Decompiled.Pass.AssemblyAttributes
import Decompiled.Pass.EmbeddedTypes
import Decompiled.Pass.EscapeIdentifiers
import Decompiled.Text.Quoted

/-!
# Pipelines

A pipeline runs passes over a tree, one after the other in the order they were
put in, up to the first error. There is an abort point before each pass; each
pass works in a span of its own and is followed there by the number of nodes it
removed.

* `Pass.performAll_append`: running two lists of passes one after the other is
  running them as one.
-/

namespace Decompiled

/-- The passes of this library. -/
inductive StandardPass where
  | escapeIdentifiers
  | assemblyAttributes
  | embeddedTypes
  deriving DecidableEq

/-- The pass itself. -/
def StandardPass.pass : StandardPass → Pass
  | escapeIdentifiers => EscapeIdentifiers.pass
  | assemblyAttributes => AssemblyAttributes.pass
  | embeddedTypes => EmbeddedTypes.pass

namespace Pass

/-- Note that a pass of the pipeline is being started. -/
def noteStart : Work Unit :=
  Attempt.update fun run => { run with started := run.started + 1 }

/-- Run a pass as part of a pipeline. -/
def perform (pass : Pass) : Work Unit := do
  Work.abortPoint
  Work.inSpan (.transform pass.name) do
    let before ← Work.look fun tree => tree.arena.liveCount
    noteStart
    pass.run
    let after ← Work.look fun tree => tree.arena.liveCount
    Work.record (.transformFinished (before - after))

/-- Run passes as parts of a pipeline, one after the other. -/
def performAll : List Pass → Work Unit
  | [] => pure ()
  | pass :: rest => do
      pass.perform
      performAll rest

/-- Running two lists of passes one after the other is running them as one. -/
theorem performAll_append (ps qs : List Pass) :
    performAll (ps ++ qs) = performAll ps >>= fun _ => performAll qs := by
  induction ps with
  | nil => simp [performAll]
  | cons pass rest ih => simp [performAll, ih, bind_assoc]

end Pass

/-- Passes in the order they run. -/
structure Pipeline where
  passes : List Pass

namespace Pipeline

/-- A pipeline without passes. -/
def empty : Pipeline := ⟨[]⟩

/-- Put a pass at the end. -/
def push (pipeline : Pipeline) (pass : Pass) : Pipeline := ⟨pipeline.passes ++ [pass]⟩

/-- The pipeline of a list of passes. -/
def ofList (passes : List Pass) : Pipeline := passes.foldl push empty

/-- How many passes there are. -/
def size (pipeline : Pipeline) : Nat := pipeline.passes.length

/-- Whether there are none. -/
def isEmpty (pipeline : Pipeline) : Bool := pipeline.passes.isEmpty

/-- The names of the passes in order. -/
def names (pipeline : Pipeline) : List String := pipeline.passes.map Pass.name

/-- How a pipeline is shown. -/
def text (pipeline : Pipeline) : String :=
  "Pipeline \x7b transforms: " ++ Text.quoteList pipeline.names ++ " \x7d"

/-- Run all passes in order, up to the first error. -/
def run (pipeline : Pipeline) : Work Unit := Pass.performAll pipeline.passes

/-- A pipeline holds the passes it was made of, in order. -/
@[simp] theorem passes_ofList (passes : List Pass) : (ofList passes).passes = passes := by
  have key : ∀ (start : Pipeline), (passes.foldl push start).passes = start.passes ++ passes := by
    induction passes with
    | nil => intro start; simp
    | cons pass rest ih => intro start; simp [ih, push]
  simp [ofList, key, empty]

end Pipeline

end Decompiled
