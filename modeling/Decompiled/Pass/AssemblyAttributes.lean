import Decompiled.KnownNames
import Decompiled.Pass.Basic

/-!
# Removing the attributes a compiler writes by itself

A compiler adds attributes of its own to an assembly and its modules, and adds
them again when decompiled code is compiled. Those at the top of the tree are
removed, and with them the sections that are left without attributes.

An attribute goes only when it is exactly what a compiler writes:

* `DebuggableAttribute`, `TargetFrameworkAttribute`: with any arguments;
* `CompilationRelaxationsAttribute`: with the number 8 alone;
* `RuntimeCompatibilityAttribute`: with `WrapNonExceptionThrows = true` alone;
* `SecurityPermissionAttribute`: with a member `RequestMinimum` and, right after
  it, `SkipVerification = true`;
* `UnverifiableCodeAttribute` on a module: with any arguments.

An attribute whose type is unknown stays.
-/

namespace Decompiled.AssemblyAttributes

/-- Whether a node holds the named argument `name = true`. -/
def isNamedTrue (arena : Arena) (name : String) (index : NodeIndex) : Bool :=
  (arena.argument? index).any (Argument.isNamedTrue name)

/-- Whether a node holds a positional reference to a member `RequestMinimum`. -/
def isRequestMinimum (arena : Arena) (index : NodeIndex) : Bool :=
  match arena.argument? index with
  | some (.positional (.memberReference _ member)) => member == "RequestMinimum"
  | _ => false

/-- Whether arguments are the request that a compiler writes for unverifiable
code: there are two, and the node after the first one is the second half. -/
def isSkipVerificationRequest (arena : Arena) : List NodeIndex → Bool
  | [first, _] =>
      isRequestMinimum arena first &&
        (arena.nextSibling? first).any (isNamedTrue arena "SkipVerification")
  | _ => false

/-- Whether a list has one entry alone and that entry passes a test. -/
def isOnly (test : NodeIndex → Bool) : List NodeIndex → Bool
  | [only] => test only
  | _ => false

/-- Whether an attribute of an assembly is one that a compiler writes. -/
def isAssemblyMarker (tree : SyntaxTree) (index : NodeIndex) : Bool :=
  match tree.attributeFullName? index with
  | none => false
  | some fullName =>
      let arena := tree.arena
      let arguments := arena.arguments index
      if fullName = KnownNames.debuggable then true
      else if fullName = KnownNames.targetFramework then true
      else if fullName = KnownNames.compilationRelaxations then
        isOnly (fun i => arena.argument? i == some (.positional (.literal (.int32 8))))
          arguments
      else if fullName = KnownNames.runtimeCompatibility then
        isOnly (isNamedTrue arena "WrapNonExceptionThrows") arguments
      else if fullName = KnownNames.securityPermission then
        isSkipVerificationRequest arena arguments
      else false

/-- Whether an attribute of a module is one that a compiler writes. -/
def isModuleMarker (tree : SyntaxTree) (index : NodeIndex) : Bool :=
  tree.attributeFullName? index == some KnownNames.unverifiableCode

/-- The rule for the attributes of a section, by what the section applies to. -/
def rule? : AttributeTarget → Option (SyntaxTree → NodeIndex → Bool)
  | .assembly => some isAssemblyMarker
  | .wholeModule => some isModuleMarker
  | .other _ => none

/-- Remove the attributes of a list that a rule holds of when their turn
comes. -/
def removeMatching (rule : SyntaxTree → NodeIndex → Bool) : List NodeIndex → Work Unit
  | [] => pure ()
  | index :: rest => do
      if (← Work.look fun tree => rule tree index) then
        let fullName ← Work.look fun tree => tree.attributeFullName? index
        Work.record (.removeAttribute index fullName)
        Work.edit (Edit.remove index)
      removeMatching rule rest

/-- Remove a section that has no attributes. -/
def removeIfEmpty (index : NodeIndex) : Work Unit := do
  let attributes ← Work.look fun tree => tree.arena.attributes index
  if attributes.isEmpty then
    Work.record (.removeEmptySection index)
    Work.edit (Edit.remove index)

/-- Clean one section. -/
def visit (index : NodeIndex) : Work Nat := do
  let target? ← Work.look fun tree => tree.arena.attributeTarget? index
  match target?.bind rule? with
  | none => return 0
  | some rule =>
      let attributes ← Work.look fun tree => tree.arena.attributes index
      removeMatching rule attributes
      removeIfEmpty index
      return 0

/-- The sweep over the sections directly below the root. -/
def sweep : Sweep where
  nodes tree := tree.arena.childrenOfKind tree.root .attributeSection
  visit := visit
  finish _ := pure ()

/-- The pass that removes compiler-written attributes. -/
def pass : Pass := ⟨"remove-compiler-generated-assembly-attributes", sweep.run⟩

end Decompiled.AssemblyAttributes
