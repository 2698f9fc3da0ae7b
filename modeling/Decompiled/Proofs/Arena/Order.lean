import Decompiled.Proofs.Arena.Links

/-!
# The order of a tree

Of two nodes of which neither is above the other, one is to the left: it hangs
in the earlier of two siblings. Siblings stand in the order of their slots. A
node comes before those below it and those to the right of it.

* `Arena.LeftOf`: one node is to the left of another.
* `Arena.LeftOf.asymm`: not both can be to the left.
* `Arena.WellLinked.pairwise_children`: of two siblings the earlier one is.
* `Arena.Before`: one node is above another or to the left of it.
-/

namespace Decompiled

namespace Arena

variable {a : Arena} {c d e f i p q x x' y y' : NodeIndex}

/-- `x` is in the subtree of a node and `y` in that of a later sibling. -/
def LeftOf (a : Arena) (x y : NodeIndex) : Prop :=
  ∃ p c d, a.parent? c = some p ∧ a.parent? d = some p ∧ c.toNat < d.toNat ∧
    a.Within c x ∧ a.Within d y

/-- `x` is above `y` or to the left of it. -/
def Before (a : Arena) (x y : NodeIndex) : Prop :=
  (x ≠ y ∧ a.Within x y) ∨ a.LeftOf x y

/-- Two nodes are in the subtrees of different siblings in one way only. -/
theorem WellLinked.branch_unique (h : a.WellLinked)
    (hc : a.parent? c = some p) (hd : a.parent? d = some p) (hcd : c ≠ d)
    (he : a.parent? e = some q) (hf : a.parent? f = some q) (hef : e ≠ f)
    (hcx : a.Within c x) (hdy : a.Within d y) (hex : a.Within e x) (hfy : a.Within f y) :
    c = e := by
  refine Decidable.byContradiction fun hce => ?_
  -- The pair of siblings further down would have both nodes in one subtree.
  rcases hcx.comparable hex with hw | hw
  · have hcf : a.Within c f := .child (hw.up (Ne.symm hce) he) hf
    exact h.siblings_apart hc hd hcd (hcf.trans hfy) hdy
  · have hed : a.Within e d := .child (hw.up hce hc) hd
    exact h.siblings_apart he hf hef (hed.trans hdy) hfy

namespace LeftOf

/-- What is below a node is to the left of the same nodes, and these stay on the
right with all below them. -/
theorem below (h : a.LeftOf x y) (hx : a.Within x x') (hy : a.Within y y') :
    a.LeftOf x' y' := by
  obtain ⟨p, c, d, hc, hd, hlt, hcx, hdy⟩ := h
  exact ⟨p, c, d, hc, hd, hlt, hcx.trans hx, hdy.trans hy⟩

theorem irrefl (hlinks : a.WellLinked) : ¬ a.LeftOf x x := by
  rintro ⟨p, c, d, hc, hd, hlt, hcx, hdx⟩
  have hcd : c ≠ d := fun heq => Nat.ne_of_lt hlt (congrArg NodeIndex.toNat heq)
  exact hlinks.siblings_apart hc hd hcd hcx hdx

theorem asymm (h : a.LeftOf x y) (hlinks : a.WellLinked) : ¬ a.LeftOf y x := by
  obtain ⟨p, c, d, hc, hd, hlt, hcx, hdy⟩ := h
  rintro ⟨q, e, f, he, hf, hlt', hey, hfx⟩
  have hcd : c ≠ d := fun heq => Nat.ne_of_lt hlt (congrArg NodeIndex.toNat heq)
  have hef : e ≠ f := fun heq => Nat.ne_of_lt hlt' (congrArg NodeIndex.toNat heq)
  have hcf : c = f := hlinks.branch_unique hc hd hcd hf he hef.symm hcx hdy hfx hey
  have hde : d = e := hlinks.branch_unique hd hc hcd.symm he hf hef hdy hcx hey hfx
  rw [hcf, hde] at hlt
  exact Nat.lt_asymm hlt hlt'

end LeftOf

/-- Of two children of a node the earlier one is to the left. -/
theorem WellLinked.pairwise_children (h : a.WellLinked) (p : NodeIndex) :
    (a.children p).Pairwise a.LeftOf := by
  refine List.Pairwise.imp_of_mem ?_ (h.ascending p)
  intro c d hc hd hlt
  exact ⟨p, c, d, h.listed_iff.mp hc, h.listed_iff.mp hd, hlt, .self, .self⟩

/-- So is the earlier one of two members. -/
theorem WellLinked.pairwise_members (h : a.WellLinked) (p : NodeIndex) :
    (a.members p).Pairwise a.LeftOf := by
  rw [members_eq]
  exact (h.pairwise_children p).sublist List.filter_sublist

namespace Before

theorem ne (h : a.Before x y) (hlinks : a.WellLinked) : x ≠ y := by
  rcases h with ⟨hne, -⟩ | hleft
  · exact hne
  · rintro rfl
    exact LeftOf.irrefl hlinks hleft

theorem not_leftOf (h : a.Before x y) (hlinks : a.WellLinked) : ¬ a.LeftOf y x := by
  rcases h with ⟨-, hw⟩ | hleft
  · exact fun habs => LeftOf.irrefl hlinks (habs.below .self hw)
  · exact hleft.asymm hlinks

theorem not_within (h : a.Before x y) (hlinks : a.WellLinked) : ¬ a.Within y x := by
  rcases h with ⟨hne, hw⟩ | hleft
  · exact fun habs => hne (hw.antisymm hlinks habs)
  · exact fun habs => LeftOf.irrefl hlinks (hleft.below .self habs)

end Before

end Arena

end Decompiled
