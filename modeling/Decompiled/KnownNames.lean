/-!
# Names the compiler emits on its own

Full names of the types that mark compiler-written attributes and helper types.
They are compared with resolved names, never with text written in the tree.
-/

namespace Decompiled.KnownNames

/-! ## Attributes of an assembly -/

/-- It tells a debugger how the assembly was compiled. -/
def debuggable : String := "System.Diagnostics.DebuggableAttribute"

/-- It allows a run-time compiler to be lax. -/
def compilationRelaxations : String :=
  "System.Runtime.CompilerServices.CompilationRelaxationsAttribute"

/-- It says how exceptions are wrapped. -/
def runtimeCompatibility : String :=
  "System.Runtime.CompilerServices.RuntimeCompatibilityAttribute"

/-- It names the framework that the assembly was compiled for. -/
def targetFramework : String := "System.Runtime.Versioning.TargetFrameworkAttribute"

/-- It asks for a permission. The compiler asks to skip verification. -/
def securityPermission : String :=
  "System.Security.Permissions.SecurityPermissionAttribute"

/-! ## Attributes of a module -/

/-- It marks a module with code that cannot be verified. -/
def unverifiableCode : String := "System.Security.UnverifiableCodeAttribute"

/-! ## Embedded helper types -/

/-- The type that marks every helper type a compiler embeds into its output. -/
def embedded : String := "Microsoft.CodeAnalysis.EmbeddedAttribute"

/-- The helper types that a compiler copies into each assembly in need of them,
and the type that marks them. -/
def embeddedHelpers : List String :=
  ["System.Runtime.CompilerServices.IsReadOnlyAttribute",
    "System.Runtime.CompilerServices.IsByRefLikeAttribute",
    "System.Runtime.CompilerServices.IsUnmanagedAttribute",
    "System.Runtime.CompilerServices.NullableAttribute",
    "System.Runtime.CompilerServices.NullableContextAttribute",
    "System.Runtime.CompilerServices.NativeIntegerAttribute",
    "System.Runtime.CompilerServices.RefSafetyRulesAttribute",
    "System.Runtime.CompilerServices.ScopedRefAttribute",
    "System.Runtime.CompilerServices.RequiresLocationAttribute",
    embedded]

/-- Whether a full name is that of an embedded helper type. -/
def isEmbeddedHelper (fullName : String) : Bool := embeddedHelpers.contains fullName

end Decompiled.KnownNames
