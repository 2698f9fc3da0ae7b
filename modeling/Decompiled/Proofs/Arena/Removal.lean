import Decompiled.Proofs.Arena.Census
import Decompiled.Proofs.Arena.Pruning

/-!
# What comes of a removal

A removal is refused for an index without a slot, for a removed node and for a
node below none, and for nothing else. One that goes through marks the nodes that
a walk from the node would have listed, takes the node off the list of its parent
and leaves it without a parent.

* `Arena.get?_cut`: what each slot holds afterwards.
* `Arena.remove_outcome`: the outcome of a removal, for each index.
-/

namespace Decompiled.Arena

variable {a : Arena} {i p x : NodeIndex} {node : Node}

section Removed

variable (hlinks : a.WellLinked) (hlive : a.isLive i = true) (hp : a.parent? i = some p)

include hlinks hlive hp

/-- What a slot holds after a removal. -/
theorem get?_cut (hget : a.get? x = some node) :
    (a.cut i).get? x = some
      { data := node.data
        parent := if x = i then .none else node.parent
        children := if x = p then node.children.erase i else node.children
        removed := node.removed || decide (x ∈ a.descendantsAndSelf i) } := by
  have hremoved := isLive_of_get? hget
  apply get?_of_views
  · by_cases hx : x ∈ a.descendantsAndSelf i
    · have hgone := ((mem_descendantsAndSelf_iff_cut hlinks hlive hp).mp hx).2
      simp [hx, hgone]
    · rw [decide_eq_false hx, Bool.or_false, ← hremoved, Bool.eq_iff_iff]
      refine ⟨(thins_cut hlinks i).live, fun hkept => ?_⟩
      by_contra hgone
      exact hx ((mem_descendantsAndSelf_iff_cut hlinks hlive hp).mpr
        ⟨hkept, Bool.not_eq_true _ ▸ hgone⟩)
  · rw [data?_cut hlinks, data?_of_get? hget]
  · rw [parent?_cut hlinks hlive hp, parent?_of_get? hget]
    split <;> rfl
  · rw [children_cut hlinks hlive hp, children_of_get? hget]

end Removed

/-- What comes of the removal of any index in an arena that can be built. An index
without a slot, a removed node and a live node below none are refused, each with
an error about the index itself, and nothing changes. Any other node is removed,
and with it exactly the nodes that a walk from it lists beforehand, so that the
count of live nodes drops by their number. The node loses its parent and the
parent's list loses the node; all other parents and lists and all that nodes carry
stay as they are. -/
theorem remove_outcome (hreachable : a.Reachable) (hfits : a.Fits) (i : NodeIndex) :
    (i = .none ∨ a.size ≤ i.toNat → Edit.remove i a = (.error (.invalidIndex i), a)) ∧
    ∀ node, a.get? i = some node →
      (node.removed = true → Edit.remove i a = (.error (.removed i), a)) ∧
      (node.removed = false → node.parent = .none →
        Edit.remove i a = (.error (.noParent i), a)) ∧
      (node.removed = false → node.parent ≠ .none →
        ∃ after, Edit.remove i a = (.ok (), after) ∧
          (∀ x, x ∈ a.descendantsAndSelf i ↔ a.isLive x = true ∧ after.isLive x = false) ∧
          a.liveCount = after.liveCount + (a.descendantsAndSelf i).length ∧
          (∃ front back, a.children node.parent = front ++ i :: back ∧
            after.children node.parent = front ++ back ∧ i ∉ front ++ back) ∧
          after.size = a.size ∧
          ∀ x found, a.get? x = some found → ∃ left, after.get? x = some left ∧
            left.data = found.data ∧
            left.parent = (if x = i then .none else found.parent) ∧
            (x ≠ node.parent → left.children = found.children) ∧
            (found.removed = true → left.removed = true)) := by
  have hlinks := hreachable.wellLinked hfits
  refine ⟨fun hout => ?_, fun node hget => ⟨fun hremoved => ?_, fun hkept hnone => ?_,
    fun hkept hsome => ?_⟩⟩
  · have habsent : a.get? i = none := get?_eq_none_iff.mpr hout
    have hdead : a.isLive i = false := by simp [isLive, habsent]
    rw [Edit.remove_of_not_live hdead, habsent]
    rfl
  · exact Edit.remove_of_removed ⟨node, hget, hremoved⟩
  · have hlive : a.isLive i = true := by rw [isLive_of_get? hget, hkept]; rfl
    refine Edit.remove_of_parentless hlive ?_
    rw [parent?_of_get? hget, hnone]
    rfl
  · have hlive : a.isLive i = true := by rw [isLive_of_get? hget, hkept]; rfl
    have hp : a.parent? i = some node.parent :=
      parent?_eq_some_iff.mpr ⟨hsome, node, hget, rfl⟩
    have hremove := remove_eq_cut hlinks hlive hp
    refine ⟨a.cut i, hremove, fun x => mem_descendantsAndSelf_iff_cut hlinks hlive hp, ?_, ?_,
      size_cut a i, fun x found hfound => ⟨_, get?_cut hlinks hlive hp hfound, rfl, rfl, ?_, ?_⟩⟩
    · rw [liveCount_of_thins hfits (thins_cut hlinks i)]
      congr 1
      exact lost_remove hlinks hfits (congrArg Prod.fst hremove)
    · have hlisted := hlinks.listed_iff.mpr hp
      obtain ⟨front, back, hfront, hlist, herase⟩ := List.exists_erase_eq hlisted
      refine ⟨front, back, hlist, ?_, ?_⟩
      · rw [children_cut hlinks hlive hp, if_pos rfl, herase]
      · rw [← herase]
        exact (hlinks.nodup node.parent).not_mem_erase
    · exact fun hne => if_neg hne
    · intro hgone
      rw [hgone]
      rfl

/-- A namespace that holds a type and another namespace, of which one is removed
after a type in it. What is left of it goes with it: two names and no more. -/
theorem remove_outcome_of_namespace :
    let a := build
      [.addRoot .compilationUnit, .addNamespace ⟨0⟩ "N", .addTypeDeclaration ⟨1⟩ .classType "A",
        .addNamespace ⟨1⟩ "M", .addTypeDeclaration ⟨5⟩ .classType "B", .addIdentifier ⟨5⟩ "x",
        .remove ⟨7⟩]
    (Edit.remove ⟨7⟩ a = (.error (.removed ⟨7⟩), a) ∧
      Edit.remove ⟨0⟩ a = (.error (.noParent ⟨0⟩), a) ∧
      Edit.remove .none a = (.error (.invalidIndex .none), a)) ∧
    a.descendantsAndSelf ⟨5⟩ = [⟨5⟩, ⟨6⟩, ⟨9⟩] ∧
    ∃ after, Edit.remove ⟨5⟩ a = (.ok (), after) ∧
      (∀ x, x ∈ a.descendantsAndSelf ⟨5⟩ ↔ a.isLive x = true ∧ after.isLive x = false) ∧
      a.liveCount = after.liveCount + 3 := by
  intro a
  have hreachable : a.Reachable := reachable_build _
  have hfits : a.Fits := by decide
  have hlisted : a.descendantsAndSelf ⟨5⟩ = [⟨5⟩, ⟨6⟩, ⟨9⟩] := by decide
  obtain ⟨hremoved, -, -⟩ := (remove_outcome hreachable hfits ⟨7⟩).2 _ rfl
  obtain ⟨-, hparentless, -⟩ := (remove_outcome hreachable hfits ⟨0⟩).2 _ rfl
  obtain ⟨hinvalid, -⟩ := remove_outcome hreachable hfits .none
  obtain ⟨-, -, hgoes⟩ := (remove_outcome hreachable hfits ⟨5⟩).2 _ rfl
  obtain ⟨after, hremove, hgone, hcount, -⟩ := hgoes (by decide) (by decide)
  rw [hlisted] at hcount
  exact ⟨⟨hremoved (by decide), hparentless (by decide) (by decide), hinvalid (.inl rfl)⟩,
    hlisted, after, hremove, hgone, hcount⟩

end Decompiled.Arena
