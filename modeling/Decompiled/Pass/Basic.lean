import Decompiled.Run.Basic

/-!
# Passes

A pass has a name and does its work on a run. The passes of this library are
sweeps: they list the nodes to look at once, before they change anything, and
then visit them in order with an abort point before each visit.

* `Sweep.visitAll_append`: visiting two lists one after the other is visiting
  them as one.
-/

namespace Decompiled

/-- A named piece of work on a tree. -/
structure Pass where
  name : String
  run : Work Unit

/-- A pass over a list of nodes that is fixed before the first visit. -/
structure Sweep where
  /-- The nodes to visit. -/
  nodes : SyntaxTree → List NodeIndex
  /-- The work at one node. Answers with the number of changes to report. -/
  visit : NodeIndex → Work Nat
  /-- The work after the last visit, given the number of changes to report. -/
  finish : Nat → Work Unit

namespace Sweep

/-- Visit nodes in order, and add the changes to those reported so far. -/
def visitAll (sweep : Sweep) (changes : Nat) : List NodeIndex → Work Nat
  | [] => pure changes
  | index :: rest => do
      Work.abortPoint
      let more ← sweep.visit index
      sweep.visitAll (changes + more) rest

/-- List the nodes, visit them, and finish. -/
def run (sweep : Sweep) : Work Unit := do
  let nodes ← Work.look sweep.nodes
  let changes ← sweep.visitAll 0 nodes
  sweep.finish changes

/-- Visiting two lists one after the other is visiting them as one. -/
theorem visitAll_append (sweep : Sweep) (changes : Nat) (xs ys : List NodeIndex) :
    sweep.visitAll changes (xs ++ ys) =
      sweep.visitAll changes xs >>= fun changes => sweep.visitAll changes ys := by
  induction xs generalizing changes with
  | nil => simp [visitAll]
  | cons index rest ih => simp [visitAll, ih, bind_assoc]

end Sweep

end Decompiled
