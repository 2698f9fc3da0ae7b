import Decompiled.Log.Event
import Decompiled.Text.Blank

/-!
# Setting up a log subscriber

A host may ask for a log on its error output by variables of its environment:
one with directives of its own, a common one that is fallen back on, and one
that chooses how entries are laid out. Nothing is set up unless one of the
first two is there, and a subscriber that listens already stays in place.

* `LogEnvironment.request?_isSome_iff`: when a host asks for a log.
-/

namespace Decompiled

/-- How entries are laid out. -/
inductive LogFormat where
  /-- A line for each event. -/
  | flat
  /-- Events indented below their spans. -/
  | tree
  deriving DecidableEq

/-- The lower-case letter of an upper-case letter of ASCII, and any other
character as it is. -/
def LogFormat.fold (c : Char) : Char := c.toLower

/-- The layout that a value asks for: `tree`, in letters of any case and with
blanks around it, and the flat layout for anything else. -/
def LogFormat.parse (value : String) : LogFormat :=
  if (Text.trimBlanks value.toList).map LogFormat.fold = "tree".toList then tree else flat

/-- The variables that a host sets, as bytes; those that are not set are
absent. -/
structure LogEnvironment where
  directives : Option ByteArray
  fallback : Option ByteArray
  format : Option ByteArray

/-- The directives that a subscriber is made from. -/
inductive LogFilter where
  | directives (text : String)
  | fallback

/-- The subscriber that a host asks for. -/
structure LogRequest where
  filter : LogFilter
  format : LogFormat

namespace LogEnvironment

/-- The text of a variable that is set to well-formed UTF-8. -/
def text? (value : Option ByteArray) : Option String := value.bind String.fromUTF8?

/-- The filter that a host asks for. Its own directives count when they are
text, even empty; the common ones only have to be there. -/
def filter? (env : LogEnvironment) : Option LogFilter :=
  match text? env.directives with
  | some text => some (.directives text)
  | none => if env.fallback.isSome then some .fallback else none

/-- The subscriber that a host asks for, if it asks for one. -/
def request? (env : LogEnvironment) : Option LogRequest :=
  env.filter?.map fun filter =>
    { filter, format := LogFormat.parse ((text? env.format).getD "") }

/-- A host asks for a log by directives that are text or by setting the common
variable to anything. -/
theorem request?_isSome_iff (env : LogEnvironment) :
    env.request?.isSome ↔ (text? env.directives).isSome ∨ env.fallback.isSome := by
  unfold request? filter?
  rcases text? env.directives with _ | _ <;> cases env.fallback <;> simp

/-- What setting up the log writes to it. A subscriber that listens already is
told that it stays. -/
def setUp (env : LogEnvironment) (listening : Bool) : List Event :=
  match env.request? with
  | some _ => if listening then [⟨.subscriberKept, []⟩] else []
  | none => []

end LogEnvironment

end Decompiled
