import Decompiled.KnownNames
import Decompiled.Pass.Basic

/-!
# Removing the helper types a compiler embeds

A compiler copies small helper types into an assembly that needs them, and
copies them again when decompiled code is compiled. A type declaration is such
a helper when its resolved name is on the list and its definition bears the
mark of an embedded type; a type of the user's own that happens to have such a
name stays.

A namespace whose only member is a helper goes with it.
-/

namespace Decompiled.EmbeddedTypes

/-- Whether a declaration is known to be of an embedded helper type. -/
def isHelper (tree : SyntaxTree) (index : NodeIndex) : Bool :=
  (tree.annotations.definitionOf? index).any fun definition =>
    KnownNames.isEmbeddedHelper definition.fullName && definition.flags.embedded

/-- Whether a node is a namespace with one member. -/
def isSingleMemberNamespace (arena : Arena) (index : NodeIndex) : Bool :=
  arena.kind? index == some .namespaceDeclaration && (arena.members index).length == 1

/-- Remove a helper type, with its namespace if it is the only member. -/
def removeHelper (index : NodeIndex) : Work Unit := do
  let parent? ← Work.look fun tree => tree.arena.parent? index
  match parent? with
  | none => Attempt.fail (.tree (.noParent index))
  | some parent =>
      let collapse ← Work.look fun tree => isSingleMemberNamespace tree.arena parent
      Work.record (.removeEmbeddedType index collapse)
      Work.edit (Edit.remove (if collapse then parent else index))

/-- Remove a declaration if it is a live helper. One that went with an
enclosing node is live no more. -/
def visit (index : NodeIndex) : Work Nat := do
  if (← Work.look fun tree => tree.arena.isLive index && isHelper tree index) then
    removeHelper index
  return 0

/-- The sweep over the type declarations below the root. -/
def sweep : Sweep where
  nodes tree := tree.arena.descendantsOfKind tree.root .typeDeclaration
  visit := visit
  finish _ := pure ()

/-- The pass that removes embedded helper types. -/
def pass : Pass := ⟨"remove-embedded-attributes", sweep.run⟩

end Decompiled.EmbeddedTypes
