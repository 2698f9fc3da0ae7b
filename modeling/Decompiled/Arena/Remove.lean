import Decompiled.Arena.Edit
import Decompiled.Arena.Walk

/-!
# Cutting a subtree off

Removal takes a node out of the list of its parent and marks it and all below
it as removed. The node itself loses its parent; the nodes below it keep
theirs, and every removed node keeps its children.

* `Edit.remove`: the removal, which a node without a parent refuses.
* `Arena.size_markFrom`: marking keeps all slots.
-/

namespace Decompiled

namespace Arena

/-- Mark a node as removed. -/
def mark (a : Arena) (index : NodeIndex) : Arena :=
  a.modify index fun node => { node with removed := true }

/-- Mark the live nodes that a stack leads to, for at most `turns` turns. -/
def markFrom (a : Arena) : Nat → List NodeIndex → Arena
  | 0, _ => a
  | turns + 1, stack =>
      match a.nextLive? stack with
      | none => a
      | some (index, stack') => markFrom (a.mark index) turns stack'

/-- Mark a node and all live nodes below it. A turn marks one live node, so
there are never more turns than slots. -/
def markSubtree (a : Arena) (index : NodeIndex) : Arena := a.markFrom a.size [index]

/-- Take `child` out of the list of `parent`, and leave it without a parent. -/
def detach (a : Arena) (child parent : NodeIndex) : Arena :=
  (a.modify parent fun node => { node with children := node.children.erase child }).modify
    child fun node => { node with parent := .none }

@[simp] theorem size_mark (a : Arena) (index : NodeIndex) :
    (a.mark index).size = a.size := by
  simp [mark]

@[simp] theorem size_detach (a : Arena) (child parent : NodeIndex) :
    (a.detach child parent).size = a.size := by
  simp [detach]

/-- Marking keeps all slots. -/
@[simp] theorem size_markFrom (a : Arena) (turns : Nat) (stack : List NodeIndex) :
    (a.markFrom turns stack).size = a.size := by
  induction turns generalizing a stack with
  | zero => rfl
  | succ turns ih =>
      simp only [markFrom]
      rcases a.nextLive? stack with _ | ⟨index, stack'⟩
      · rfl
      · simp [ih]

end Arena

namespace Edit

/-- Cut a live node off its parent, and mark it and all below it as removed. A
node without a parent cannot be removed. -/
def remove (index : NodeIndex) : Edit Unit := do
  let node ← live index
  if node.parent.isNone then
    Attempt.fail (.noParent index)
  else
    let parent ← live node.parent
    if index ∈ parent.children then
      Attempt.update fun a => (a.detach index node.parent).markSubtree index
    else
      Attempt.fail (.notAChild index node.parent)

/-- What a removal does, case by case. -/
theorem remove_apply (index : NodeIndex) (a : Arena) :
    remove index a =
      match a.live index with
      | .error e => (.error e, a)
      | .ok node =>
          if node.parent.isNone then (.error (.noParent index), a)
          else
            match a.live node.parent with
            | .error e => (.error e, a)
            | .ok parent =>
                if index ∈ parent.children then
                  (.ok (), (a.detach index node.parent).markSubtree index)
                else (.error (.notAChild index node.parent), a) := by
  unfold remove
  rw [Attempt.bind_apply, live_apply]
  rcases a.live index with e | node
  · rfl
  · simp only
    split
    · rfl
    · rw [Attempt.bind_apply, live_apply]
      rcases a.live node.parent with e | parent
      · rfl
      · simp only
        split <;> rfl

end Edit

end Decompiled
