import Decompiled.TreeError

/-!
# Cancellation

A run is cancelled through a token. The passes look at it at their abort points
only, so a cancelled run ends at the next of these. Once cancelled, a token
stays cancelled.

Somebody else cancels the token, at a moment of their own. All that a run can
notice of that moment is how much of it came before: so many events, or so many
abort points.
-/

namespace Decompiled

/-- A flag that asks a run to stop. -/
structure Token where
  cancelled : Bool
  deriving DecidableEq

namespace Token

/-- A token that nobody has cancelled. -/
def fresh : Token := ⟨false⟩

/-- Ask the run to stop if now is the time. -/
def cancelIf (token : Token) (now : Bool) : Token := ⟨token.cancelled || now⟩

/-- Ask the run to stop. -/
def cancel (token : Token) : Token := token.cancelIf true

@[simp] theorem cancelIf_false (token : Token) : token.cancelIf false = token := by
  simp [cancelIf]

end Token

/-- When somebody else cancels the token of a run. Events and abort points are
counted from 1, so 0 is never reached. -/
inductive Moment where
  | never
  /-- While the `n`-th event of the run is written. -/
  | atEvent (n : Nat)
  /-- Just before the `n`-th abort point of the run. -/
  | atAbortPoint (n : Nat)
  deriving DecidableEq

/-- Why a run ended early. -/
inductive TransformError where
  | cancelled
  /-- The tree handed in is not well formed. -/
  | tree (error : TreeError)
  deriving DecidableEq

/-- The text of an error. -/
def TransformError.message : TransformError → String
  | cancelled => "transform run was cancelled"
  | tree error => error.message

end Decompiled
