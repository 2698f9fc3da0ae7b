import Decompiled.Proofs.Arena.Walk

/-!
# What a removal does

A removal works in three steps: the node is taken out of the list of its
parent, it loses its parent, and it and all live nodes below it are marked. In
a well-linked arena the outcome is said more simply, by what it does to each
view of the arena.

* `Edit.remove_of_parent`: a live node with a parent can be removed.
* `Arena.isLive_cut`: exactly its subtree is removed with it.
* `Arena.children_cut`, `Arena.parent?_cut`, `Arena.data?_cut`: all else stays.
* `Arena.WellLinked.cut`: the links agree afterwards.
-/

namespace Decompiled

namespace Arena

variable {a b : Arena} {i p x : NodeIndex} {stack listed : List NodeIndex}

/-! ## Marking -/

theorem get?_mark (a : Arena) (i x : NodeIndex) :
    (a.mark i).get? x =
      (a.get? x).map fun node => if x = i then { node with removed := true } else node := by
  unfold mark
  rw [get?_modify]
  by_cases h : x = i <;> simp [h]

theorem isLive_mark (a : Arena) (i x : NodeIndex) :
    (a.mark i).isLive x = (a.isLive x && x != i) := by
  unfold isLive
  rw [get?_mark]
  rcases a.get? x with _ | node
  · rfl
  · by_cases h : x = i <;> simp [h]

theorem children_mark (a : Arena) (i x : NodeIndex) : (a.mark i).children x = a.children x :=
  children_congr (get?_mark a i x) (by intro node; split <;> rfl)

theorem parent?_mark (a : Arena) (i x : NodeIndex) : (a.mark i).parent? x = a.parent? x :=
  parent?_congr (get?_mark a i x) (by intro node; split <;> rfl)

theorem data?_mark (a : Arena) (i x : NodeIndex) : (a.mark i).data? x = a.data? x :=
  data?_congr (get?_mark a i x) (by intro node; split <;> rfl)

/-- A view that a single mark leaves alone is left alone by marking from a
stack. -/
theorem markFrom_induction {α : Type} (view : Arena → α)
    (hmark : ∀ a i, view (Arena.mark a i) = view a) (a : Arena) (turns : Nat)
    (stack : List NodeIndex) : view (a.markFrom turns stack) = view a := by
  induction turns generalizing a stack with
  | zero => rfl
  | succ turns ih =>
      simp only [markFrom]
      rcases a.nextLive? stack with _ | ⟨i, stack'⟩
      · rfl
      · show view ((a.mark i).markFrom turns stack') = view a
        rw [ih, hmark]

/-- Marking from a stack marks what a walk from it lists. -/
theorem Walk.isLive_markFrom (h : a.Walk stack listed) (hnodup : listed.Nodup)
    {turns : Nat} (hturns : listed.length ≤ turns) (x : NodeIndex) :
    (a.markFrom turns stack).isLive x = true ↔ a.isLive x = true ∧ x ∉ listed := by
  -- Once its top is marked, the rest of the walk is one of the marked arena.
  induction turns generalizing a stack listed with
  | zero =>
      have hnil : listed = [] := List.eq_nil_of_length_eq_zero (Nat.le_zero.mp hturns)
      subst hnil
      simp [markFrom]
  | succ turns ih =>
      induction h with
      | done => simp [markFrom, nextLive?]
      | @skip top stack listed hdead hwalk ihskip =>
          have hsame : a.markFrom (turns + 1) (top :: stack) = a.markFrom (turns + 1) stack := by
            simp only [markFrom]
            rw [nextLive?_cons, hdead]
            rfl
          rw [hsame]
          exact ihskip hnodup hturns
      | @visit top stack listed hlive hwalk _ =>
          obtain ⟨hnew, hrest⟩ := List.nodup_cons.mp hnodup
          have hmarked : (a.mark top).Walk (a.children top ++ stack) listed := by
            apply hwalk.transfer
            · intro y hy
              rw [isLive_mark, Bool.and_eq_true] at hy
              exact hy.1
            · intro y hy
              refine ⟨?_, children_mark a top y⟩
              have hne : y ≠ top := fun heq => hnew (heq ▸ hy)
              have hylive : a.isLive y = true := hwalk.isLive_of_mem hy
              simp [isLive_mark, hylive, hne]
          have hsame : a.markFrom (turns + 1) (top :: stack) =
              (a.mark top).markFrom turns (a.children top ++ stack) := by
            simp only [markFrom]
            rw [nextLive?_cons, hlive]
            rfl
          rw [hsame, ih hmarked hrest (by simpa using hturns), isLive_mark]
          simp [and_assoc]

/-! ## Taking a node out of the list of its parent -/

theorem get?_detach (a : Arena) (i p x : NodeIndex) :
    (a.detach i p).get? x =
      (a.get? x).map fun node =>
        { node with
          children := if x = p then node.children.erase i else node.children
          parent := if x = i then .none else node.parent } := by
  unfold detach
  rw [get?_modify, get?_modify]
  rcases a.get? x with _ | node
  · simp
  · by_cases hi : x = i <;> by_cases hp : x = p
    · simp only [if_pos hi, if_pos hp, Option.map_some]
    · simp only [if_pos hi, if_neg hp, Option.map_some]
    · simp only [if_neg hi, if_pos hp, Option.map_some]
    · simp only [if_neg hi, if_neg hp, Option.map_some]

theorem isLive_detach (a : Arena) (i p x : NodeIndex) :
    (a.detach i p).isLive x = a.isLive x :=
  isLive_congr (get?_detach a i p x) fun _ => rfl

theorem data?_detach (a : Arena) (i p x : NodeIndex) : (a.detach i p).data? x = a.data? x :=
  data?_congr (get?_detach a i p x) fun _ => rfl

theorem children_detach (a : Arena) (i p x : NodeIndex) :
    (a.detach i p).children x = if x = p then (a.children x).erase i else a.children x := by
  unfold children
  rw [get?_detach]
  rcases a.get? x with _ | node
  · simp
  · by_cases hp : x = p <;> simp [hp]

theorem parent?_detach (a : Arena) (i p x : NodeIndex) :
    (a.detach i p).parent? x = if x = i then none else a.parent? x := by
  unfold parent?
  rw [get?_detach]
  rcases a.get? x with _ | node
  · simp
  · by_cases hi : x = i <;> simp [hi, NodeIndex.toOption]

/-! ## Removing a node -/

/-- The arena after an attempt to remove a node. -/
def cut (a : Arena) (i : NodeIndex) : Arena := (Edit.remove i a).2

end Arena

namespace Edit

variable {a : Arena} {i p : NodeIndex}

/-- A live node with a parent can be removed. -/
theorem remove_of_parent (hlinks : a.WellLinked) (hlive : a.isLive i = true)
    (hp : a.parent? i = some p) :
    remove i a = (.ok (), (a.detach i p).markSubtree i) := by
  obtain ⟨node, hget, hremoved⟩ := Arena.isLive_iff.mp hlive
  have hnode : a.live i = .ok node := Arena.live_eq_ok_iff.mpr ⟨hget, hremoved⟩
  have hparent : node.parent = p := by
    obtain ⟨found, hfound, heq⟩ := Arena.exists_of_parent? hp
    rw [hget] at hfound
    exact Option.some.inj hfound ▸ heq
  subst hparent
  have hsome : node.parent.isNone = false := by
    rw [Bool.eq_false_iff]
    exact fun habs => Arena.parent?_ne_none hp (NodeIndex.isNone_iff.mp habs)
  obtain ⟨above, habove, hkept⟩ :=
    Arena.isLive_iff.mp ((hlinks.together hp).symm.trans hlive)
  have hpnode : a.live node.parent = .ok above := Arena.live_eq_ok_iff.mpr ⟨habove, hkept⟩
  have hmem : i ∈ above.children := by
    rw [← Arena.children_of_get? habove]
    exact hlinks.listed_iff.mpr hp
  rw [remove_apply, hnode]
  simp only [hsome, Bool.false_eq_true, if_false, hpnode, hmem, if_true]

/-- A node that is not live is not removed. -/
theorem remove_of_not_live (hdead : a.isLive i = false) :
    remove i a =
      (.error (if (a.get? i).isSome then .removed i else .invalidIndex i), a) := by
  rw [remove_apply]
  unfold Arena.live
  rcases hget : a.get? i with _ | node
  · rfl
  · rw [Arena.isLive_of_get? hget] at hdead
    have hremoved : node.removed = true := by simpa using hdead
    simp [hremoved]

/-- A removed node is not removed again. -/
theorem remove_of_removed (h : a.Removed i) : remove i a = (.error (.removed i), a) := by
  obtain ⟨hthere, hdead⟩ := Arena.removed_iff.mp h
  rw [remove_of_not_live hdead, if_pos hthere]

/-- A live node without a parent is not removed. -/
theorem remove_of_parentless (hlive : a.isLive i = true) (hp : a.parent? i = none) :
    remove i a = (.error (.noParent i), a) := by
  obtain ⟨node, hget, hremoved⟩ := Arena.isLive_iff.mp hlive
  have hnode : a.live i = .ok node := Arena.live_eq_ok_iff.mpr ⟨hget, hremoved⟩
  have hnone : node.parent.isNone = true := by
    rw [Arena.parent?_of_get? hget] at hp
    unfold NodeIndex.toOption at hp
    split at hp
    · assumption
    · cases hp
  rw [remove_apply, hnode]
  simp [hnone]

end Edit

namespace Arena

variable {a b : Arena} {i p x : NodeIndex}

theorem cut_of_not_live (hdead : a.isLive i = false) : a.cut i = a := by
  unfold cut
  rw [Edit.remove_of_not_live hdead]

theorem cut_of_parentless (hp : a.parent? i = none) : a.cut i = a := by
  rcases hlive : a.isLive i with _ | _
  · exact cut_of_not_live hlive
  · unfold cut
    rw [Edit.remove_of_parentless hlive hp]

theorem cut_of_parent (hlinks : a.WellLinked) (hlive : a.isLive i = true)
    (hp : a.parent? i = some p) : a.cut i = (a.detach i p).markSubtree i := by
  unfold cut
  rw [Edit.remove_of_parent hlinks hlive hp]

/-- A removal keeps all slots. -/
@[simp] theorem size_cut (a : Arena) (i : NodeIndex) : (a.cut i).size = a.size := by
  unfold cut
  rw [Edit.remove_apply]
  rcases a.live i with _ | node
  · rfl
  · simp only
    split
    · rfl
    · rcases a.live node.parent with _ | above
      · rfl
      · simp only
        split
        · simp [markSubtree]
        · rfl

section Removed

variable (hlinks : a.WellLinked) (hlive : a.isLive i = true) (hp : a.parent? i = some p)

include hlinks hlive hp

/-- No node but those of the subtree is removed. -/
theorem isLive_cut (x : NodeIndex) :
    (a.cut i).isLive x = true ↔ a.isLive x = true ∧ ¬ a.Within i x := by
  -- The walk does not visit the parent, whose list is the only one that changes.
  have hwalk := walk_descendantsAndSelf hlinks i
  have hdetached : (a.detach i p).Walk [i] (a.descendantsAndSelf i) := by
    apply hwalk.transfer
    · intro y hy
      rwa [isLive_detach] at hy
    · intro y hy
      have hw := ((mem_descendantsAndSelf hlinks).mp hy).2
      have hne : y ≠ p := fun heq => hlinks.not_within_parent hp (heq ▸ hw)
      rw [isLive_detach, children_detach, if_neg hne]
      exact ⟨hwalk.isLive_of_mem hy, rfl⟩
  rw [cut_of_parent hlinks hlive hp]
  unfold markSubtree
  rw [hdetached.isLive_markFrom (nodup_descendantsAndSelf hlinks i)
    (by rw [size_detach]; exact hwalk.length_le hlinks), isLive_detach,
    mem_descendantsAndSelf hlinks]
  simp [hlive]

/-- These are the nodes that a walk from the removed one would have listed. -/
theorem mem_descendantsAndSelf_iff_cut :
    x ∈ a.descendantsAndSelf i ↔ a.isLive x = true ∧ (a.cut i).isLive x = false := by
  rw [mem_descendantsAndSelf hlinks, Bool.eq_false_iff, Ne, isLive_cut hlinks hlive hp]
  constructor
  · rintro ⟨-, hw⟩
    exact ⟨(hw.isLive_eq hlinks).trans hlive, fun habs => habs.2 hw⟩
  · rintro ⟨hx, hgone⟩
    exact ⟨hlive, Classical.not_not.mp fun hw => hgone ⟨hx, hw⟩⟩

/-- The parent alone loses a child. -/
theorem children_cut (x : NodeIndex) :
    (a.cut i).children x = if x = p then (a.children x).erase i else a.children x := by
  rw [cut_of_parent hlinks hlive hp]
  unfold markSubtree
  rw [markFrom_induction (fun b => b.children x) (fun b j => children_mark b j x),
    children_detach]

/-- The removed node alone loses its parent. -/
theorem parent?_cut (x : NodeIndex) :
    (a.cut i).parent? x = if x = i then none else a.parent? x := by
  rw [cut_of_parent hlinks hlive hp]
  unfold markSubtree
  rw [markFrom_induction (fun b => b.parent? x) (fun b j => parent?_mark b j x),
    parent?_detach]

end Removed

/-- A removal changes nothing that a node carries. -/
theorem data?_cut (hlinks : a.WellLinked) (i x : NodeIndex) :
    (a.cut i).data? x = a.data? x := by
  rcases hlive : a.isLive i with _ | _
  · rw [cut_of_not_live hlive]
  · rcases hp : a.parent? i with _ | p
    · rw [cut_of_parentless hp]
    · rw [cut_of_parent hlinks hlive hp]
      unfold markSubtree
      rw [markFrom_induction (fun b => b.data? x) (fun b j => data?_mark b j x),
        data?_detach]

/-- A removal leaves the arena well linked. -/
theorem WellLinked.cut (h : a.WellLinked) (i : NodeIndex) : (a.cut i).WellLinked := by
  rcases hlive : a.isLive i with _ | _
  · rw [cut_of_not_live hlive]
    exact h
  rcases hp : a.parent? i with _ | p
  · rw [cut_of_parentless hp]
    exact h
  -- Lists lose the removed node and nothing else.
  have hmem : ∀ {q c}, c ∈ (a.cut i).children q ↔ c ∈ a.children q ∧ c ≠ i := by
    intro q c
    rw [children_cut h hlive hp]
    split
    · rw [(h.nodup q).mem_erase_iff, and_comm]
    · rename_i hq
      refine ⟨fun hc => ⟨hc, ?_⟩, And.left⟩
      rintro rfl
      exact hq (h.parent_unique hc (h.listed_iff.mpr hp))
  constructor
  · intro q
    rw [children_cut h hlive hp]
    split
    · exact (h.ascending q).sublist List.erase_sublist
    · exact h.ascending q
  · intro q c hc
    exact h.younger (hmem.mp hc).1
  · intro q c
    rw [hmem, parent?_cut h hlive hp, h.listed_iff]
    split
    · rename_i hc
      simp [hc]
    · rename_i hc
      simp [hc]
  · intro c q hq
    rw [parent?_cut h hlive hp] at hq
    split at hq
    · cases hq
    · -- The other links are in the subtree with both ends, or outside with both.
      rename_i hc
      have hsub : a.Within i c ↔ a.Within i q :=
        ⟨fun hw => hw.up hc hq, fun hw => .child hw hq⟩
      rw [Bool.eq_iff_iff, isLive_cut h hlive hp, isLive_cut h hlive hp, hsub,
        h.together hq]

end Arena

end Decompiled
