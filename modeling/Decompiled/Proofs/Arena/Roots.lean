import Mathlib.Algebra.GroupWithZero.Nat
import Mathlib.Data.List.Perm.Basic
import Mathlib.Data.List.Nodup
import Decompiled.Proofs.Arena.Census
import Decompiled.Proofs.Arena.Reachable

/-!
# The trees of an arena

An arena holds any number of trees, one for each live node without a parent. From
a live node the parents lead up to the root of its tree, and the walk from there is
the only one from a root that comes back to the node.

* `Arena.Climbs`: the chain of parents, as a deterministic relation.
* `Arena.roots`: the live nodes without a parent.
* `Arena.live_nodes_by_root`: each live node belongs to one root.
-/

namespace Decompiled

namespace Arena

variable {a : Arena} {x y r top top' : NodeIndex} {chain chain' : List NodeIndex}

/-! ## Chains of parents -/

/-- `Climbs a x chain top`: the chain starts with `x`, goes on with the parent of
each node in it, and ends with `top`, which has none. -/
inductive Climbs (a : Arena) : NodeIndex → List NodeIndex → NodeIndex → Prop
  | top {x : NodeIndex} : a.parent? x = none → Climbs a x [x] x
  | up {x p top : NodeIndex} {chain : List NodeIndex} :
      a.parent? x = some p → Climbs a p chain top → Climbs a x (x :: chain) top

namespace Climbs

/-- A node has one parent at most, so there is one chain. -/
theorem unique (h : a.Climbs x chain top) (h' : a.Climbs x chain' top') :
    chain = chain' ∧ top = top' := by
  induction h generalizing chain' top' with
  | top hnone =>
      cases h' with
      | top _ => exact ⟨rfl, rfl⟩
      | up hp _ =>
          rw [hnone] at hp
          cases hp
  | up hp _ ih =>
      cases h' with
      | top hnone =>
          rw [hp] at hnone
          cases hnone
      | up hp' hrest =>
          cases hp.symm.trans hp'
          obtain ⟨rfl, rfl⟩ := ih hrest
          exact ⟨rfl, rfl⟩

theorem parentless (h : a.Climbs x chain top) : a.parent? top = none := by
  induction h with
  | top hnone => exact hnone
  | up _ _ ih => exact ih

theorem getLast?_eq (h : a.Climbs x chain top) : chain.getLast? = some top := by
  induction h with
  | top _ => rfl
  | up _ _ ih => rw [List.getLast?_cons, ih, Option.getD_some]

/-- The nodes of a chain are those that its start is at or below. -/
theorem mem_iff (h : a.Climbs x chain top) : y ∈ chain ↔ a.Within y x := by
  induction h with
  | top hnone =>
      rw [List.mem_singleton]
      constructor
      · rintro rfl
        exact .self
      · exact fun hw => (hw.eq_of_parentless hnone).symm
  | @up x p _ _ hp _ ih =>
      rw [List.mem_cons, ih]
      constructor
      · rintro (rfl | hw)
        · exact .self
        · exact .child hw hp
      · intro hw
        by_cases hyx : y = x
        · exact .inl hyx
        · exact .inr (hw.up (Ne.symm hyx) hp)

theorem within_top (h : a.Climbs x chain top) : a.Within top x :=
  h.mem_iff.mp (List.mem_of_getLast? h.getLast?_eq)

/-- No other node without a parent is above the start of a chain. -/
theorem within_iff_eq_top (h : a.Climbs x chain top) (hr : a.parent? r = none) :
    a.Within r x ↔ r = top := by
  constructor
  · intro hw
    rcases hw.comparable h.within_top with hrt | htr
    · exact (hrt.eq_of_parentless h.parentless).symm
    · exact htr.eq_of_parentless hr
  · rintro rfl
    exact h.within_top

/-- The slots of a chain were made one before the other. -/
theorem descending (h : a.Climbs x chain top) (hlinks : a.WellLinked) :
    chain.Pairwise fun y z => z.toNat < y.toNat := by
  induction h with
  | top _ => exact List.pairwise_singleton _ _
  | up hp hrest ih =>
      refine List.pairwise_cons.mpr ⟨fun y hy => ?_, ih⟩
      exact Nat.lt_of_le_of_lt ((hrest.mem_iff.mp hy).le hlinks) (hlinks.parent_lt hp)

/-- From each node there is a chain: the index gets smaller with each parent. -/
theorem exists_of_wellLinked (hlinks : a.WellLinked) (x : NodeIndex) :
    ∃ chain top, a.Climbs x chain top := by
  induction hn : x.toNat using Nat.strongRecOn generalizing x with
  | ind n ih =>
      subst hn
      rcases hp : a.parent? x with _ | p
      · exact ⟨[x], x, .top hp⟩
      · obtain ⟨chain, top, hrest⟩ := ih p.toNat (hlinks.parent_lt hp) p rfl
        exact ⟨x :: chain, top, .up hp hrest⟩

end Climbs

/-! ## Roots -/

/-- The live nodes without a parent, in the order in which their slots were made. -/
def roots (a : Arena) : List NodeIndex :=
  a.slots.filter fun i => a.isLive i && (a.parent? i).isNone

theorem mem_roots : r ∈ a.roots ↔ a.isLive r = true ∧ a.parent? r = none := by
  unfold roots
  rw [List.mem_filter, Bool.and_eq_true, Option.isNone_iff_eq_none, and_iff_right_iff_imp]
  exact fun h => mem_slots_of_isLive h.1

theorem nodup_roots (hfits : a.Fits) : a.roots.Nodup := (nodup_slots hfits).filter _

/-- The chain of a live node ends at a root. -/
theorem Climbs.top_mem_roots (h : a.Climbs x chain top) (hlinks : a.WellLinked)
    (hlive : a.isLive x = true) : top ∈ a.roots :=
  mem_roots.mpr ⟨h.within_top.isLive_eq hlinks ▸ hlive, h.parentless⟩

/-- Of all walks from roots, the one from the end of its chain lists a node. -/
theorem Climbs.mem_descendantsAndSelf_iff (h : a.Climbs x chain top) (hlinks : a.WellLinked)
    (hr : r ∈ a.roots) :
    x ∈ a.descendantsAndSelf r ↔ r = top := by
  obtain ⟨hrlive, hnone⟩ := mem_roots.mp hr
  rw [mem_descendantsAndSelf hlinks, h.within_iff_eq_top hnone, and_iff_right hrlive]

/-- That walk lists the node once, and the others do not. -/
theorem Climbs.count_descendantsAndSelf (h : a.Climbs x chain top) (hlinks : a.WellLinked)
    (hr : r ∈ a.roots) : (a.descendantsAndSelf r).count x = if r = top then 1 else 0 := by
  have hmem := h.mem_descendantsAndSelf_iff hlinks hr
  split
  · rename_i heq
    exact List.count_eq_one_of_mem (nodup_descendantsAndSelf hlinks r) (hmem.mpr heq)
  · rename_i hne
    exact List.count_eq_zero_of_not_mem fun hx => hne (hmem.mp hx)

/-- The walks from the roots, put together, list the live nodes. -/
theorem perm_flatMap_roots (hlinks : a.WellLinked) (hfits : a.Fits) :
    (a.roots.flatMap a.descendantsAndSelf).Perm (a.slots.filter a.isLive) := by
  have hlisted : ∀ {r x}, x ∈ a.descendantsAndSelf r → a.isLive x = true := by
    intro r x hx
    obtain ⟨hlive, hw⟩ := (mem_descendantsAndSelf hlinks).mp hx
    rw [hw.isLive_eq hlinks, hlive]
  have hnodup : (a.roots.flatMap a.descendantsAndSelf).Nodup := by
    rw [List.nodup_flatMap]
    refine ⟨fun r _ => nodup_descendantsAndSelf hlinks r, ?_⟩
    refine (nodup_roots hfits).imp_of_mem fun hr hr' hne x hx hx' => hne ?_
    obtain ⟨chain, top, hclimbs⟩ := Climbs.exists_of_wellLinked hlinks x
    have heq := (hclimbs.mem_descendantsAndSelf_iff hlinks hr).mp hx
    have heq' := (hclimbs.mem_descendantsAndSelf_iff hlinks hr').mp hx'
    exact heq.trans heq'.symm
  refine (List.perm_ext_iff_of_nodup hnodup ((nodup_slots hfits).filter _)).mpr fun x => ?_
  rw [List.mem_flatMap, List.mem_filter]
  constructor
  · rintro ⟨r, -, hx⟩
    exact ⟨mem_slots_of_isLive (hlisted hx), hlisted hx⟩
  · rintro ⟨-, hlive⟩
    obtain ⟨chain, top, hclimbs⟩ := Climbs.exists_of_wellLinked hlinks x
    have htop := hclimbs.top_mem_roots hlinks hlive
    exact ⟨top, htop, (hclimbs.mem_descendantsAndSelf_iff hlinks htop).mpr rfl⟩

/-- The live nodes of an arena that can be built, root by root. From a live node
there is one chain of parents. It ends, each index in it is smaller than the one
before, and its last node is a live node without a parent. Among the walks from
all such nodes, the one from there lists the live node, once, and no other does.
So the walks have together as many nodes as are live. -/
theorem live_nodes_by_root (h : a.Reachable) (hfits : a.Fits) :
    (∀ x, a.isLive x = true → ∃ chain top,
      a.Climbs x chain top ∧
      (∀ chain' top', a.Climbs x chain' top' → chain' = chain ∧ top' = top) ∧
      chain.Pairwise (fun y z => z.toNat < y.toNat) ∧
      chain.getLast? = some top ∧
      a.isLive top = true ∧ a.parent? top = none ∧
      ∀ r, a.isLive r = true → a.parent? r = none →
        (a.descendantsAndSelf r).count x = if r = top then 1 else 0) ∧
    (a.roots.Nodup ∧ ∀ r, r ∈ a.roots ↔ a.isLive r = true ∧ a.parent? r = none) ∧
    a.liveCount = (a.roots.map fun r => (a.descendantsAndSelf r).length).sum := by
  have hlinks := h.wellLinked hfits
  refine ⟨fun x hlive => ?_, ⟨nodup_roots hfits, fun r => mem_roots⟩, ?_⟩
  · obtain ⟨chain, top, hclimbs⟩ := Climbs.exists_of_wellLinked hlinks x
    obtain ⟨htop, hnone⟩ := mem_roots.mp (hclimbs.top_mem_roots hlinks hlive)
    exact ⟨chain, top, hclimbs, fun chain' top' h' => h'.unique hclimbs,
      hclimbs.descending hlinks, hclimbs.getLast?_eq, htop, hnone, fun r hr hrnone =>
        hclimbs.count_descendantsAndSelf hlinks (mem_roots.mpr ⟨hr, hrnone⟩)⟩
  · rw [liveCount_eq hfits, List.countP_eq_length_filter, ← List.length_flatMap]
    exact (perm_flatMap_roots hlinks hfits).length_eq.symm

/-- Two trees, the second of them begun before the first is finished. A type with its
name is removed from the first, and the root of the second is not, as it has no parent. -/
def twoTrees : Arena :=
  build
    [.addRoot .compilationUnit, .addNamespace ⟨0⟩ "N", .addRoot (.other "notes"),
      .addTypeDeclaration ⟨1⟩ .classType "A", .addOther ⟨3⟩ "line",
      .addTypeDeclaration ⟨1⟩ .classType "B", .remove ⟨4⟩, .remove ⟨3⟩]

/-- The name of the remaining type is listed once from the root of the first tree, and
not from that of the second. -/
theorem live_nodes_of_twoTrees :
    let a := twoTrees
    a.Reachable ∧ a.Fits ∧ a.size = 9 ∧ a.roots = [⟨0⟩, ⟨3⟩] ∧ a.isLive ⟨8⟩ = true ∧
    (∀ chain top, a.Climbs ⟨8⟩ chain top → chain = [⟨8⟩, ⟨7⟩, ⟨1⟩, ⟨0⟩] ∧ top = ⟨0⟩) ∧
    (a.descendantsAndSelf ⟨0⟩).count ⟨8⟩ = 1 ∧ (a.descendantsAndSelf ⟨3⟩).count ⟨8⟩ = 0 ∧
    a.liveCount = 5 + 2 := by
  intro a
  have hreachable : a.Reachable := reachable_build _
  have hfits : a.Fits := by decide
  have hlive : a.isLive ⟨8⟩ = true := by decide
  obtain ⟨hnodes, -, hsum⟩ := live_nodes_by_root hreachable hfits
  obtain ⟨chain, top, -, hunique, -, -, -, -, hcount⟩ := hnodes ⟨8⟩ hlive
  obtain ⟨rfl, rfl⟩ := hunique _ _ (.up rfl (.up rfl (.up rfl (.top rfl))))
  exact ⟨hreachable, hfits, by decide, by decide, hlive, hunique,
    hcount ⟨0⟩ (by decide) (by decide), hcount ⟨3⟩ (by decide) (by decide),
    hsum.trans (by decide)⟩

end Arena

end Decompiled
