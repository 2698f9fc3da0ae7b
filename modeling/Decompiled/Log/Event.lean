import Decompiled.Node.Index

/-!
# What is written to the log

A pass says what it is about to do in a notice, at the moment it does it. The
log keeps each notice with the spans that were open then, the outermost first.

A notice has a level, a message and named fields; `Notice.level`,
`Notice.message` and `Notice.fields` give them.
-/

namespace Decompiled

/-- How much detail a notice belongs to. -/
inductive Level where
  | debug
  | trace
  deriving DecidableEq

/-- A stretch of a run that notices are written in. -/
inductive Span where
  /-- A pass of a pipeline. -/
  | transform (name : String)
  /-- A tree of a batch. -/
  | tree (index : Nat)
  deriving DecidableEq

/-- What is said in the log. -/
inductive Notice where
  /-- An identifier is about to get another name. -/
  | escapeIdentifier (index : NodeIndex) (before after : String)
  /-- The names of so many identifiers were invalid. -/
  | escapedIdentifiers (count : Nat)
  /-- An attribute is about to be removed. -/
  | removeAttribute (index : NodeIndex) (fullName : Option String)
  /-- A section without attributes is about to be removed. -/
  | removeEmptySection (index : NodeIndex)
  /-- A helper type is about to be removed, or its whole namespace. -/
  | removeEmbeddedType (index : NodeIndex) (collapsedNamespace : Bool)
  /-- A pass has removed so many nodes. -/
  | transformFinished (removed : Nat)
  /-- So many trees are about to be transformed. -/
  | transformingTrees (trees : Nat)
  /-- Somebody else is listening to the log already. -/
  | subscriberKept
  deriving DecidableEq

/-- The value of a field. -/
inductive FieldValue where
  | number (n : Nat)
  | flag (b : Bool)
  | text (s : String)
  deriving DecidableEq

namespace Notice

/-- Single steps are traced; summaries are for debugging. -/
def level : Notice → Level
  | escapeIdentifier .. => .trace
  | removeAttribute .. => .trace
  | removeEmptySection .. => .trace
  | removeEmbeddedType .. => .trace
  | escapedIdentifiers .. => .debug
  | transformFinished .. => .debug
  | transformingTrees .. => .debug
  | subscriberKept => .debug

/-- The text of a notice. -/
def message : Notice → String
  | escapeIdentifier .. => "escape identifier"
  | escapedIdentifiers .. => "escaped invalid identifiers"
  | removeAttribute .. => "remove compiler-generated attribute"
  | removeEmptySection .. => "remove empty attribute section"
  | removeEmbeddedType .. => "remove embedded type"
  | transformFinished .. => "transform finished"
  | transformingTrees .. => "transforming trees in parallel"
  | subscriberKept => "global tracing subscriber already set; keeping it"

/-- The fields of a notice. An unknown name is left out. -/
def fields : Notice → List (String × FieldValue)
  | escapeIdentifier index before after =>
      [("idx", .number index.toNat), ("from", .text before), ("to", .text after)]
  | escapedIdentifiers count => [("rewritten", .number count)]
  | removeAttribute index none => [("idx", .number index.toNat)]
  | removeAttribute index (some fullName) =>
      [("idx", .number index.toNat), ("name", .text fullName)]
  | removeEmptySection index => [("idx", .number index.toNat)]
  | removeEmbeddedType index collapsedNamespace =>
      [("idx", .number index.toNat), ("collapsed_namespace", .flag collapsedNamespace)]
  | transformFinished removed => [("removed", .number removed)]
  | transformingTrees trees => [("trees", .number trees)]
  | subscriberKept => []

end Notice

namespace Span

/-- What a span is called. -/
def name : Span → String
  | transform _ => "transform"
  | tree _ => "tree"

/-- The fields of a span. -/
def fields : Span → List (String × FieldValue)
  | transform name => [("name", .text name)]
  | tree index => [("index", .number index)]

end Span

/-- An entry of the log: a notice and the spans it was written in, the
outermost first. -/
structure Event where
  notice : Notice
  spans : List Span
  deriving DecidableEq

end Decompiled
