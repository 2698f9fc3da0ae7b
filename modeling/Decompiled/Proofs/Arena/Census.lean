import Mathlib.Data.List.Perm.Basic
import Mathlib.Data.List.Nodup
import Decompiled.Proofs.Arena.Thinning

/-!
# Counting nodes

The number of live nodes of an arena, told by its indices. What an arena has
lost when it is thinned is the number of slots whose node was live and no longer
is; a removal loses the nodes that a walk below the removed one would list.

* `Arena.liveCount_eq`: the count goes by the views of the slots.
* `Arena.liveCount_of_thins`: what is there no more has been lost.
* `Arena.lost_remove`: what a removal loses.
-/

namespace Decompiled

namespace Arena

variable {a b : Arena} {i x : NodeIndex}

/-- The indices of all slots, in order. -/
def slots (a : Arena) : List NodeIndex := (List.range a.size).map .ofCount

/-- In how many slots there was a live node, and there no longer is. -/
def lost (a b : Arena) : Nat := a.slots.countP fun i => a.isLive i && !b.isLive i

theorem mem_slots_of_isLive (hlive : a.isLive x = true) : x ∈ a.slots := by
  obtain ⟨node, hget, -⟩ := isLive_iff.mp hlive
  exact List.mem_map.mpr
    ⟨x.toNat, List.mem_range.mpr (bounds_of_get? hget).2, NodeIndex.ofCount_toNat x⟩

section Slots

variable (hfits : a.Fits)

include hfits

theorem toNat_ofCount_of_fits {n : Nat} (hn : n < a.size) : (NodeIndex.ofCount n).toNat = n := by
  have hsize : a.size ≤ 0xFFFFFFFF := hfits
  exact NodeIndex.toNat_ofCount_of_lt (by omega)

theorem nodup_slots : a.slots.Nodup := by
  refine List.Nodup.map_on (fun m hm n hn heq => ?_) List.nodup_range
  rw [← toNat_ofCount_of_fits hfits (List.mem_range.mp hm), heq,
    toNat_ofCount_of_fits hfits (List.mem_range.mp hn)]

/-- Each slot is live at its index if the node in it is. -/
theorem isLive_ofCount {n : Nat} (hn : n < a.size) :
    a.isLive (.ofCount n) = (a.nodes[n]?).any fun node => !node.removed := by
  have hpos := toNat_ofCount_of_fits hfits hn
  have hsome : (NodeIndex.ofCount n).isNone = false := by
    rw [Bool.eq_false_iff]
    intro habs
    have hsize : a.size ≤ 0xFFFFFFFF := hfits
    rw [NodeIndex.isNone_iff.mp habs] at hpos
    replace hpos : 0xFFFFFFFF = n := hpos
    omega
  unfold isLive get?
  rw [hsome, hpos]
  rfl

/-- The live nodes are counted by their indices. -/
theorem liveCount_eq : a.liveCount = a.slots.countP a.isLive := by
  have hmap : a.slots.map a.isLive = a.nodes.toList.map fun node => !node.removed := by
    apply List.ext_getElem
    · simp [slots, size]
    · intro n hn _
      have hlt : n < a.size := by simpa [slots] using hn
      have hget : a.nodes[n]? = some a.nodes[n] := Array.getElem?_eq_getElem hlt
      simp only [slots, List.getElem_map, List.getElem_range, isLive_ofCount hfits hlt, hget,
        Array.getElem_toList]
      rfl
  have hcount : ∀ {α : Type} (p : α → Bool) (l : List α), l.countP p = (l.map p).countP id := by
    intro α p l
    rw [List.countP_map]
    rfl
  unfold liveCount
  rw [← Array.countP_toList, hcount, hcount a.isLive, hmap]

end Slots

/-- What a list names that was live and no longer is has been lost. -/
theorem lost_eq_length (hfits : a.Fits) {listed : List NodeIndex} (hnodup : listed.Nodup)
    (hmem : ∀ x, x ∈ listed ↔ a.isLive x = true ∧ b.isLive x = false) :
    a.lost b = listed.length := by
  unfold lost
  rw [List.countP_eq_length_filter]
  refine ((List.perm_ext_iff_of_nodup ((nodup_slots hfits).filter _) hnodup).mpr ?_).length_eq
  intro x
  rw [List.mem_filter, hmem, Bool.and_eq_true, Bool.not_eq_true', and_iff_right_iff_imp]
  exact fun h => mem_slots_of_isLive h.1

/-- Whatever is no longer counted has been lost. -/
theorem liveCount_of_thins (hfits : a.Fits) (h : a.Thins b) :
    a.liveCount = b.liveCount + a.lost b := by
  have hslots : b.slots = a.slots := by
    unfold slots
    rw [h.size]
  have hfits' : b.Fits := by
    unfold Fits
    rw [h.size]
    exact hfits
  rw [liveCount_eq hfits, liveCount_eq hfits', hslots]
  unfold lost
  rw [List.countP_eq_countP_filter_add a.slots a.isLive b.isLive, List.countP_filter,
    List.countP_filter]
  congr 1
  refine List.countP_congr fun x _ => ?_
  rw [Bool.and_eq_true, and_iff_right_iff_imp]
  exact h.live

/-- Where the same nodes are live nothing has been lost. -/
theorem lost_of_isLive (h : ∀ x, b.isLive x = a.isLive x) : a.lost b = 0 := by
  unfold lost
  refine List.countP_eq_zero.mpr fun x _ => ?_
  rw [h, Bool.and_not_self]
  exact Bool.false_ne_true

/-- A removal that succeeds loses what a walk from the node lists beforehand. -/
theorem lost_remove (hlinks : a.WellLinked) (hfits : a.Fits)
    (hok : (Edit.remove i a).1 = .ok ()) :
    a.lost (Edit.remove i a).2 = (a.descendantsAndSelf i).length := by
  have hlive : a.isLive i = true := by
    by_contra hdead
    rw [Edit.remove_of_not_live (Bool.not_eq_true _ ▸ hdead)] at hok
    cases hok
  obtain ⟨p, hp⟩ : ∃ p, a.parent? i = some p := by
    rcases hp : a.parent? i with _ | p
    · rw [Edit.remove_of_parentless hlive hp] at hok
      cases hok
    · exact ⟨p, rfl⟩
  exact lost_eq_length hfits (nodup_descendantsAndSelf hlinks i) fun _ =>
    mem_descendantsAndSelf_iff_cut hlinks hlive hp

end Arena

end Decompiled
