import Decompiled.Decimal.Double

/-!
# Arguments of attributes

The literals and other expressions that stand as arguments of an attribute,
and the two forms an argument takes.

Beside `=` there is the equality that a reader of the values expects,
`Argument.sameValue`, which compares doubles as numbers.
-/

namespace Decompiled

/-- A literal. -/
inductive Literal where
  | int32 (value : Int32)
  | int64 (value : Int64)
  | bool (value : Bool)
  | char (value : Char)
  | string (value : String)
  | double (value : Double)
  | null
  deriving DecidableEq

/-- The value expression of an argument: a literal, a reference
`target.member`, or the text of any other expression. -/
inductive ArgumentValue where
  | literal (value : Literal)
  | memberReference (target member : String)
  | other (text : String)
  deriving DecidableEq

/-- An argument of an attribute, by position or by name. -/
inductive Argument where
  | positional (value : ArgumentValue)
  | named (name : String) (value : ArgumentValue)
  deriving DecidableEq

/-- Equality of literals with doubles compared as numbers. -/
def Literal.sameValue : Literal → Literal → Bool
  | .double a, .double b => a.sameValue b
  | a, b => a == b

/-- Equality of values with doubles compared as numbers. -/
def ArgumentValue.sameValue : ArgumentValue → ArgumentValue → Bool
  | .literal a, .literal b => a.sameValue b
  | a, b => a == b

namespace Argument

/-- The value expression of either form. -/
def value : Argument → ArgumentValue
  | positional value => value
  | named _ value => value

/-- Equality of arguments with doubles compared as numbers: the same form, the
same name if there is one, the same value. -/
def sameValue : Argument → Argument → Bool
  | positional a, positional b => a.sameValue b
  | named m a, named n b => m == n && a.sameValue b
  | _, _ => false

/-- Whether this is the named argument `name = true`. -/
def isNamedTrue (name : String) : Argument → Bool
  | named n (.literal (.bool true)) => n == name
  | _ => false

end Argument

end Decompiled
