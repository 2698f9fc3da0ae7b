import Decompiled.Identifier.Escape
import Decompiled.Pass.Basic

/-!
# Escaping all identifiers of a tree

Every live identifier below the root whose name cannot be written gets its
escaped name. The nodes to visit are listed once; giving a node another name
removes none of them.
-/

namespace Decompiled.EscapeIdentifiers

/-- Give an identifier its escaped name if it needs one. -/
def visit (index : NodeIndex) : Work Nat := do
  let name? ← Work.look fun tree => tree.arena.identifierName? index
  match name? with
  | none => return 0
  | some name =>
      match Identifier.escape? name with
      | none => return 0
      | some escaped =>
          Work.record (.escapeIdentifier index name escaped)
          Work.edit (Edit.setIdentifierName index escaped)
          return 1

/-- The sweep over all identifiers, which reports how many it changed. -/
def sweep : Sweep where
  nodes tree := tree.arena.descendantsOfKind tree.root .identifier
  visit := visit
  finish count := Work.record (.escapedIdentifiers count)

/-- The pass that escapes the identifiers of a tree. -/
def pass : Pass := ⟨"escape-invalid-identifiers", sweep.run⟩

end Decompiled.EscapeIdentifiers
