import Decompiled.Proofs.Arena.Walk

/-!
# Pre-order

A walk keeps a stack, so it does not show in which order it lists a tree.
`Arena.PreOrder` says that without a stack: a node, all that is below its
children, and then all that is below the nodes beside it.

* `Arena.PreOrder`: the live nodes of a list of subtrees, in pre-order.
* `Arena.PreOrder.unique`: there is only one such order.
* `Arena.Walk.preOrder`, `Arena.preOrder_descendantsAndSelf`: walks keep to it.
-/

namespace Decompiled

namespace Arena

variable {a : Arena} {i : NodeIndex} {stack first second listed listed' : List NodeIndex}

/-- `PreOrder a tops listed`: the live nodes at and below the tops, each before
those below it, and these before those at and below the next top. -/
inductive PreOrder (a : Arena) : List NodeIndex → List NodeIndex → Prop
  | nil : PreOrder a [] []
  /-- There is nothing to list at an index of no node or of a removed node. -/
  | gone {i : NodeIndex} {tops listed : List NodeIndex} :
      a.isLive i = false → PreOrder a tops listed → PreOrder a (i :: tops) listed
  /-- A live node comes first, and then its children with all below them. -/
  | node {i : NodeIndex} {tops below listed : List NodeIndex} :
      a.isLive i = true → PreOrder a (a.children i) below → PreOrder a tops listed →
        PreOrder a (i :: tops) (i :: (below ++ listed))

namespace PreOrder

/-- The subtrees of one part of a list come before those of the other. -/
theorem split (h : a.PreOrder (first ++ second) listed) :
    ∃ front back, listed = front ++ back ∧ a.PreOrder first front ∧ a.PreOrder second back := by
  induction first generalizing listed with
  | nil => exact ⟨[], listed, rfl, .nil, h⟩
  | cons i rest ih =>
      cases h with
      | gone hdead hrest =>
          obtain ⟨front, back, rfl, hfront, hback⟩ := ih hrest
          exact ⟨front, back, rfl, .gone hdead hfront, hback⟩
      | @node _ _ below _ hlive hbelow hrest =>
          obtain ⟨front, back, rfl, hfront, hback⟩ := ih hrest
          refine ⟨i :: (below ++ front), back, ?_, .node hlive hbelow hfront, hback⟩
          rw [List.cons_append, List.append_assoc]

/-- Nothing is left open about the order. -/
theorem unique (h : a.PreOrder stack listed) (h' : a.PreOrder stack listed') :
    listed = listed' := by
  induction h generalizing listed' with
  | nil =>
      cases h'
      rfl
  | gone hdead _ ih =>
      cases h' with
      | gone _ hrest => exact ih hrest
      | node hlive _ _ =>
          rw [hdead] at hlive
          cases hlive
  | node hlive _ _ ihbelow ihrest =>
      cases h' with
      | gone hdead _ =>
          rw [hlive] at hdead
          cases hdead
      | node _ hbelow hrest => rw [ihbelow hbelow, ihrest hrest]

end PreOrder

/-- A walk lists the subtrees of its stack in pre-order. -/
theorem Walk.preOrder (h : a.Walk stack listed) : a.PreOrder stack listed := by
  induction h with
  | done => exact .nil
  | skip hdead _ ih => exact .gone hdead ih
  | visit hlive _ ih =>
      -- The children have been put on top of the stack.
      obtain ⟨below, rest, rfl, hbelow, hrest⟩ := ih.split
      exact .node hlive hbelow hrest

theorem preOrder_descendantsAndSelf (hlinks : a.WellLinked) (i : NodeIndex) :
    a.PreOrder [i] (a.descendantsAndSelf i) :=
  (walk_descendantsAndSelf hlinks i).preOrder

end Arena

end Decompiled
