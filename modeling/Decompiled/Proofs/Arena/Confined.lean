import Decompiled.Proofs.Arena.Thinning

/-!
# Removals within a subtree

Nodes that are removed from a subtree, its top included, change slots of that
subtree, and the slot of the node that it hangs in. All other slots hold what
they held.

* `Arena.get?_cut_of_apart`: one removal.
* `Arena.Confined`: any number of them.
-/

namespace Decompiled

namespace Arena

variable {a b c : Arena} {i s x : NodeIndex}

/-- A removal leaves a slot alone that is neither in the subtree nor the one
that it hangs in. -/
theorem get?_cut_of_apart (hlinks : a.WellLinked) (hout : ¬ a.Within i x)
    (hparent : a.parent? i ≠ some x) : (a.cut i).get? x = a.get? x := by
  rcases hlive : a.isLive i with _ | _
  · rw [cut_of_not_live hlive]
  rcases hp : a.parent? i with _ | p
  · rw [cut_of_parentless hp]
  have hi : x ≠ i := by
    rintro rfl
    exact hout .self
  have hxp : x ≠ p := by
    rintro rfl
    exact hparent hp
  apply get?_eq_of_views
  · exact isSome_get?_congr (size_cut a i) x
  · rw [Bool.eq_iff_iff, isLive_cut hlinks hlive hp]
    exact and_iff_left hout
  · exact data?_cut hlinks i x
  · rw [parent?_cut hlinks hlive hp, if_neg hi]
  · rw [children_cut hlinks hlive hp, if_neg hxp]

/-- `b` is `a` thinned out within the subtree of a node. -/
structure Confined (s : NodeIndex) (a b : Arena) : Prop where
  thins : a.Thins b
  same : ∀ {x}, ¬ a.Within s x → a.parent? s ≠ some x → b.get? x = a.get? x

namespace Confined

theorem refl (hlinks : a.WellLinked) : Confined s a a where
  thins := .refl hlinks
  same := fun _ _ => rfl

theorem trans (hab : Confined s a b) (hbc : Confined s b c) : Confined s a c where
  thins := hab.thins.trans hbc.thins
  same := by
    intro x hout hparent
    have hout' : ¬ b.Within s x := fun hw => hout (hab.thins.within hw)
    have hparent' : b.parent? s ≠ some x := fun hp => hparent (hab.thins.hung hp)
    exact (hbc.same hout' hparent').trans (hab.same hout hparent)

/-- A node of the subtree is removed, if it is still there. -/
theorem cut (hlinks : a.WellLinked) (hi : a.isLive i = true → a.Within s i) :
    Confined s a (a.cut i) where
  thins := thins_cut hlinks i
  same := by
    intro x hout hparent
    rcases hlive : a.isLive i with _ | _
    · rw [cut_of_not_live hlive]
    · have hwithin := hi hlive
      refine get?_cut_of_apart hlinks (fun hw => hout (hwithin.trans hw)) fun hp => ?_
      by_cases heq : i = s
      · exact hparent (heq ▸ hp)
      · exact hout (hwithin.up heq hp)

end Confined

end Arena

end Decompiled
