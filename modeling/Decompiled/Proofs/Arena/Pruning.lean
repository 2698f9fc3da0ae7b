import Decompiled.Proofs.Arena.History
import Decompiled.Proofs.Arena.Thinning

/-!
# Pruned arenas

A pass that removes nodes removes subtrees, one at a time. An arena is pruned at
some nodes when exactly their subtrees are gone; what is left carries what it
carried, hangs where it hung and is listed in the same order.

* `Arena.Prunes`: the relation; `Arena.Prunes.cut` adds one subtree.
* `Arena.Prunes.get?_eq_of_kept`: a slot that is left, removed before or not.
* `Arena.Thins.descendantsOfKind_eq`: a walk of what is left.
-/

namespace Decompiled

namespace Arena

variable {a b : Arena} {i p x top : NodeIndex} {tops : NodeIndex → Prop}
  {stack listed : List NodeIndex}

/-- `b` is `a` without the subtrees of some nodes. -/
structure Prunes (a : Arena) (tops : NodeIndex → Prop) (b : Arena) : Prop where
  thins : Thins a b
  live_iff : ∀ x, b.isLive x = true ↔ a.isLive x = true ∧ ∀ d, tops d → ¬ a.Within d x
  carries : ∀ x, b.data? x = a.data? x

namespace Prunes

theorem refl (hlinks : a.WellLinked) : Prunes a (fun _ => False) a where
  thins := .refl hlinks
  live_iff := fun _ => ⟨fun h => ⟨h, fun _ habs => habs.elim⟩, And.left⟩
  carries := fun _ => rfl

/-- What has been pruned may be described in another way. -/
theorem congr {tops' : NodeIndex → Prop} (h : Prunes a tops b) (hsame : ∀ d, tops d ↔ tops' d) :
    Prunes a tops' b where
  thins := h.thins
  live_iff := by
    intro x
    rw [h.live_iff]
    simp only [hsame]
  carries := h.carries

/-- Nodes below others that have been pruned may be named as well. -/
theorem more {tops' : NodeIndex → Prop} (h : Prunes a tops b) (hsub : ∀ d, tops d → tops' d)
    (hcover : ∀ d, tops' d → ∃ e, tops e ∧ a.Within e d) : Prunes a tops' b where
  thins := h.thins
  live_iff := by
    intro x
    rw [h.live_iff]
    refine and_congr_right fun _ => ⟨fun hapart d hd hw => ?_, fun hapart d hd => ?_⟩
    · obtain ⟨e, he, hed⟩ := hcover d hd
      exact hapart e he (hed.trans hw)
    · exact hapart d (hsub d hd)
  carries := h.carries

/-- One more subtree is cut off. -/
theorem cut (h : Prunes a tops b) (hlive : b.isLive i = true) (hp : b.parent? i = some p) :
    Prunes a (fun d => tops d ∨ d = i) (b.cut i) where
  thins := h.thins.trans (thins_cut h.thins.links i)
  live_iff := by
    intro x
    rw [isLive_cut h.thins.links hlive hp]
    constructor
    · rintro ⟨hx, hout⟩
      obtain ⟨hxa, hapart⟩ := (h.live_iff x).mp hx
      refine ⟨hxa, fun d hd hw => ?_⟩
      rcases hd with hd | rfl
      · exact hapart d hd hw
      · exact hout ((h.thins.within_iff hx).mpr hw)
    · rintro ⟨hxa, hapart⟩
      have hx := (h.live_iff x).mpr ⟨hxa, fun d hd => hapart d (.inl hd)⟩
      exact ⟨hx, fun hw => hapart i (.inr rfl) ((h.thins.within_iff hx).mp hw)⟩
  carries := by
    intro x
    rw [data?_cut h.thins.links, h.carries]

/-- A node of no pruned subtree is still live. -/
theorem isLive_of_apart (h : Prunes a tops b) (hx : a.isLive x = true)
    (hapart : ∀ d, tops d → ¬ a.Within d x) : b.isLive x = true :=
  (h.live_iff x).mpr ⟨hx, hapart⟩

/-- A child of a live node goes only if it is pruned itself. -/
theorem child_live (h : Prunes a tops b) (hlinks : a.WellLinked) (hlive : b.isLive p = true)
    (hx : a.parent? x = some p) (hkept : ¬ tops x) : b.isLive x = true := by
  obtain ⟨hpa, hapart⟩ := (h.live_iff p).mp hlive
  refine h.isLive_of_apart ((hlinks.together hx).trans hpa) fun d hd hw => ?_
  -- Any other subtree that the child is in holds its parent as well.
  have hne : x ≠ d := by
    rintro rfl
    exact hkept hd
  exact hapart d hd (hw.up hne hx)

/-- A child that has gone from a live node has been pruned. -/
theorem pruned_of_gone (h : Prunes a tops b) (hlinks : a.WellLinked) (hlive : b.isLive p = true)
    (hx : a.parent? x = some p) (hgone : b.isLive x ≠ true) : tops x :=
  Classical.byContradiction fun hkept => hgone (h.child_live hlinks hlive hx hkept)

/-- A node that has gone is in a pruned subtree. -/
theorem exists_top (h : Prunes a tops b) (hx : a.isLive x = true) (hgone : b.isLive x ≠ true) :
    ∃ d, tops d ∧ a.Within d x :=
  Classical.byContradiction fun hnone =>
    hgone (h.isLive_of_apart hx fun d hd hw => hnone ⟨d, hd, hw⟩)

/-- What is left is what it was, less the children that have gone. -/
theorem get?_eq (h : Prunes a tops b) (hlive : b.isLive x = true) :
    b.get? x = (a.get? x).map fun node =>
      { node with children := node.children.filter b.isLive } := by
  obtain ⟨node, hget, hkept⟩ := isLive_iff.mp (h.thins.live hlive)
  rw [hget]
  apply get?_of_views
  · rw [hlive, hkept]
    rfl
  · rw [h.carries, data?_of_get? hget]
  · rw [h.thins.hangs hlive, parent?_of_get? hget]
  · rw [h.thins.lists hlive, children_of_get? hget]

/-! ### Slots that are left -/

section Slots

variable {c : NodeIndex} {node : Node} (h : Prunes a tops b) (hlinks : a.WellLinked)

include h hlinks

/-- A child that is not pruned itself is as live as before, if nothing above it
is pruned. -/
theorem isLive_child_eq (hkept : ∀ d, tops d → ¬ a.Within d x) (hc : a.parent? c = some x)
    (hsingle : ¬ tops c) : b.isLive c = a.isLive c := by
  rcases hlive : a.isLive c with _ | _
  · exact h.thins.gone hlive
  · rw [hlinks.together hc] at hlive
    exact h.child_live hlinks (h.isLive_of_apart hlive hkept) hc hsingle

variable (hhistory : a.Precedes b)

include hhistory

/-- What has not been pruned is what it was, less the children that have. That
is so of nodes that had been removed before as well, since these keep their
place. -/
theorem get?_eq_of_kept (hkept : ∀ d, tops d → ¬ a.Within d x) (hget : a.get? x = some node) :
    b.get? x = some
      { node with children := node.children.filter fun c => a.isLive c == b.isLive c } := by
  have hlist := children_of_get? hget
  rcases hlive : a.isLive x with _ | _
  · have hthere : (a.get? x).isSome := by
      rw [hget]
      rfl
    obtain ⟨hdead, hparent, hchildren⟩ := hhistory.settled hthere hlive
    -- The children of a removed node have all been removed before.
    have hall : node.children.filter (fun c => a.isLive c == b.isLive c) = node.children := by
      refine List.filter_eq_self.mpr fun c hc => ?_
      rw [← hlist] at hc
      have hcdead : a.isLive c = false := by rw [hlinks.together (hlinks.listed_iff.mp hc), hlive]
      rw [hcdead, h.thins.gone hcdead]
      rfl
    rw [hall, ← hget]
    exact get?_eq_of_views (h.thins.isSome_get? x) (hdead.trans hlive.symm) (h.carries x)
      hparent hchildren
  · have hall : node.children.filter b.isLive =
        node.children.filter fun c => a.isLive c == b.isLive c := by
      refine List.filter_congr fun c hc => ?_
      rw [← hlist] at hc
      rw [hlinks.child_live hlive hc, Bool.true_beq]
    rw [h.get?_eq (h.isLive_of_apart hlive hkept), hget, ← hall]
    rfl

/-- A slot holds what it held if neither its node nor a child of it is pruned. -/
theorem get?_eq_of_apart (hkept : ∀ d, tops d → ¬ a.Within d x)
    (hchildren : ∀ c, a.parent? c = some x → ¬ tops c) : b.get? x = a.get? x := by
  rcases hget : a.get? x with _ | node
  · have hthere := h.thins.isSome_get? x
    rw [hget] at hthere
    exact Option.isNone_iff_eq_none.mp (Option.isSome_eq_false_iff.mp hthere)
  · have hall : node.children.filter (fun c => a.isLive c == b.isLive c) = node.children := by
      refine List.filter_eq_self.mpr fun c hc => ?_
      rw [← children_of_get? hget] at hc
      have hparent := hlinks.listed_iff.mp hc
      rw [h.isLive_child_eq hlinks hkept hparent (hchildren c hparent)]
      exact beq_self_eq_true _
    rw [h.get?_eq_of_kept hlinks hhistory hkept hget, hall]

/-- So does a whole subtree that holds nothing pruned and is in nothing pruned. -/
theorem get?_eq_of_within (hapart : ∀ d, tops d → ¬ a.Within d top ∧ ¬ a.Within top d)
    (hx : a.Within top x) : b.get? x = a.get? x := by
  refine h.get?_eq_of_apart hlinks hhistory (fun d hd hw => ?_) fun c hc hd => ?_
  · obtain ⟨habove, hbelow⟩ := hapart d hd
    exact (hw.comparable hx).elim habove hbelow
  · exact (hapart c hd).2 (.child hx hc)

end Slots

end Prunes

/-- A live node with a parent is removed. -/
theorem remove_eq_cut (hlinks : a.WellLinked) (hlive : a.isLive i = true)
    (hp : a.parent? i = some p) : Edit.remove i a = (.ok (), a.cut i) := by
  rw [cut_of_parent hlinks hlive hp, Edit.remove_of_parent hlinks hlive hp]

/-! ## Walking what is left -/

/-- In a thinned arena a walk lists what it listed before, less what is gone. -/
theorem Walk.thinned (h : a.Walk stack listed) (hlinks : a.WellLinked) (hthins : Thins a b) :
    b.Walk (stack.filter b.isLive) (listed.filter b.isLive) := by
  induction h with
  | done => exact .done
  | @skip top stack listed hdead _ ih =>
      rw [List.filter_cons, hthins.gone hdead]
      exact ih
  | @visit top stack listed hlive _ ih =>
      rw [List.filter_append] at ih
      rcases hb : b.isLive top with _ | _
      · -- The children of a node that is gone are gone as well.
        have hchildren : (a.children top).filter b.isLive = [] := by
          rw [List.filter_eq_nil_iff]
          intro c hc hclive
          have hparent : b.parent? c = some top := by
            rw [hthins.hangs hclive]
            exact hlinks.listed_iff.mp hc
          rw [hthins.links.together hparent, hb] at hclive
          cases hclive
        rw [hchildren] at ih
        rw [List.filter_cons, List.filter_cons, hb]
        exact ih
      · rw [← hthins.lists hb] at ih
        rw [List.filter_cons, List.filter_cons, hb]
        exact .visit hb ih

theorem Thins.descendantsAndSelf_eq (h : Thins a b) (hlinks : a.WellLinked)
    (hlive : b.isLive top = true) :
    b.descendantsAndSelf top = (a.descendantsAndSelf top).filter b.isLive := by
  have hwalk := (walk_descendantsAndSelf hlinks top).thinned hlinks h
  rw [List.filter_cons, hlive] at hwalk
  exact hwalk.walkOnto_eq (hwalk.length_le h.links)

theorem Thins.descendantsOfKind_eq (h : Thins a b) (hlinks : a.WellLinked)
    (hlive : b.isLive top = true) (kind : NodeKind) :
    b.descendantsOfKind top kind = (a.descendantsOfKind top kind).filter b.isLive := by
  unfold descendantsOfKind
  rw [h.descendantsAndSelf_eq hlinks hlive, List.filter_filter, List.filter_filter]
  apply List.filter_congr
  intro x _
  rw [h.kind?, Bool.and_comm]

theorem Thins.childrenOfKind_eq (h : Thins a b) (hlive : b.isLive p = true) (kind : NodeKind) :
    b.childrenOfKind p kind = (a.childrenOfKind p kind).filter b.isLive := by
  unfold childrenOfKind
  rw [h.lists hlive, List.filter_filter, List.filter_filter]
  apply List.filter_congr
  intro x _
  rw [h.kind?, Bool.and_comm]

end Arena

end Decompiled
