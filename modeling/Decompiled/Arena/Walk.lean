import Decompiled.Arena.Basic

/-!
# Walking a tree

The walk below a node lists the live nodes of its subtree, each before its
children and siblings in order. It keeps a stack of the nodes still to be
looked at, so the depth of a tree is no limit.

* `Arena.nextLive?`: one turn of the walk.
* `Arena.walkOnto_eq_append`: what the walk has listed so far does not
  influence what it lists next.
-/

namespace Decompiled

namespace Arena

/-- Take indices from a stack up to the first one of a live node. Answers with
it and the rest of the stack, on which its children now lie in order; indices
without a node and those of removed nodes are dropped. -/
def nextLive? (a : Arena) : List NodeIndex → Option (NodeIndex × List NodeIndex)
  | [] => none
  | index :: stack =>
      match a.get? index with
      | none => nextLive? a stack
      | some node =>
          if node.removed then nextLive? a stack
          else some (index, node.children ++ stack)

/-- Walk from a stack for at most `turns` turns. `seen` holds the nodes listed
so far, the latest first. -/
def walkOnto (a : Arena) (seen : List NodeIndex) : Nat → List NodeIndex → List NodeIndex
  | 0, _ => seen.reverse
  | turns + 1, stack =>
      match a.nextLive? stack with
      | none => seen.reverse
      | some (index, stack') => walkOnto a (index :: seen) turns stack'

/-- The live nodes at and below an index, each before its children. A turn
lists a slot that was not listed before, so there are never more turns than
slots. -/
def descendantsAndSelf (a : Arena) (index : NodeIndex) : List NodeIndex :=
  a.walkOnto [] a.size [index]

/-- The live nodes of one kind at and below an index, in the same order. -/
def descendantsOfKind (a : Arena) (index : NodeIndex) (kind : NodeKind) :
    List NodeIndex :=
  (a.descendantsAndSelf index).filter fun i => a.kind? i == some kind

/-- What has been listed so far does not influence what is listed next. -/
theorem walkOnto_eq_append (a : Arena) (seen : List NodeIndex) (turns : Nat)
    (stack : List NodeIndex) :
    a.walkOnto seen turns stack = seen.reverse ++ a.walkOnto [] turns stack := by
  induction turns generalizing seen stack with
  | zero => simp [walkOnto]
  | succ turns ih =>
      simp only [walkOnto]
      rcases a.nextLive? stack with _ | ⟨index, stack'⟩
      · simp
      · simp only
        rw [ih (index :: seen), ih [index]]
        simp

/-- One turn lists one live node, and the walk goes on below and after it. -/
theorem walkOnto_succ (a : Arena) (turns : Nat) (stack : List NodeIndex) :
    a.walkOnto [] (turns + 1) stack =
      match a.nextLive? stack with
      | none => []
      | some (index, stack') => index :: a.walkOnto [] turns stack' := by
  rw [walkOnto]
  rcases a.nextLive? stack with _ | ⟨index, stack'⟩
  · rfl
  · simp only
    rw [walkOnto_eq_append]
    rfl

end Arena

end Decompiled
