import Decompiled.Proofs.Arena.Builders
import Decompiled.Proofs.Arena.Walk

/-!
# Planting a tree

A tree is put into an arena node by node, each child below the index that its
parent was given. The nodes come to stand in the order in which the tree is
written down, later ones do not disturb those before them, and whoever reads the
arena from the root finds the tree that was put in.

* `OrderedTree`, `Edit.plant`: a tree of data, and how it is put into an arena.
* `Arena.Reads`: the trees that are read at a list of indices.
* `Arena.Stands`: a list of trees stands in the slots from one on.
* `Edit.plantAll_of_room`: where trees stand that have been planted.
* `Arena.plant_then_read`: a planted tree is walked in order and read back.
-/

namespace Decompiled

/-! ## Trees of data -/

/-- A finite ordered tree of what nodes carry. -/
inductive OrderedTree where
  | node (data : NodeData) (children : List OrderedTree)

namespace OrderedTree

mutual

/-- The number of nodes of a tree. -/
def size : OrderedTree → Nat
  | node _ children => total children + 1

/-- The number of nodes of some trees. -/
def total : List OrderedTree → Nat
  | [] => 0
  | tree :: rest => size tree + total rest

end

theorem total_cons (data : NodeData) (below rest : List OrderedTree) :
    total (node data below :: rest) = total below + 1 + total rest := by
  rw [total, size]

/-- Lists of trees, by the trees below the first and the trees beside it. -/
@[elab_as_elim]
theorem forest_induction {motive : List OrderedTree → Prop} (nil : motive [])
    (cons : ∀ data below rest, motive below → motive rest → motive (node data below :: rest)) :
    ∀ trees, motive trees
  | [] => nil
  | node data below :: rest =>
      cons data below rest (forest_induction nil cons below) (forest_induction nil cons rest)

end OrderedTree

namespace Edit

mutual

/-- Add a tree below a live node: its root, and then what is below the root. -/
def plantBelow (parent : NodeIndex) : OrderedTree → Edit NodeIndex
  | .node data children => do
      let index ← addChild parent data
      plantAll index children
      return index

/-- Add trees below a live node, one after the other. -/
def plantAll (parent : NodeIndex) : List OrderedTree → Edit Unit
  | [] => return ()
  | tree :: rest => do
      let _ ← plantBelow parent tree
      plantAll parent rest

end

/-- Add a tree of its own. -/
def plant : OrderedTree → Edit NodeIndex
  | .node data children => do
      let index ← addRoot data
      plantAll index children
      return index

theorem plantAll_nil (parent : NodeIndex) (a : Arena) :
    plantAll parent [] a = (.ok (), a) := by
  rw [plantAll]
  rfl

theorem plantAll_cons (parent : NodeIndex) (data : NodeData) (below rest : List OrderedTree) :
    plantAll parent (.node data below :: rest) = (do
      let index ← addChild parent data
      plantAll index below
      plantAll parent rest) := by
  rw [plantAll, plantBelow]
  simp only [bind_assoc, pure_bind]

end Edit

namespace Arena

variable {a b c : Arena} {parent i x : NodeIndex} {indices tops : List NodeIndex} {n : Nat}
  {data : NodeData} {node : Node} {trees below rest : List OrderedTree}

/-! ## Reading trees back -/

/-- `Reads a indices trees`: at the indices the trees are read, each node by what it
carries and each list of trees by the children of the node. -/
inductive Reads (a : Arena) : List NodeIndex → List OrderedTree → Prop
  | nil : Reads a [] []
  | cons {i : NodeIndex} {data : NodeData} {indices : List NodeIndex}
      {below rest : List OrderedTree} :
      a.data? i = some data → Reads a (a.children i) below → Reads a indices rest →
        Reads a (i :: indices) (.node data below :: rest)

/-- What is read is fixed by the arena. -/
theorem Reads.unique {trees' : List OrderedTree} (h : a.Reads indices trees)
    (h' : a.Reads indices trees') : trees = trees' := by
  induction h generalizing trees' with
  | nil =>
      cases h'
      rfl
  | cons hdata _ _ ihbelow ihrest =>
      cases h' with
      | cons hdata' hbelow' hrest' =>
          cases hdata.symm.trans hdata'
          rw [ihbelow hbelow', ihrest hrest']

/-! ## Where trees stand -/

/-- `Stands a parent tops n trees`: the trees stand below a parent in the slots from
`n` on, each node before those below it and these before the next tree. Their roots
are at the indices `tops`. -/
inductive Stands (a : Arena) : NodeIndex → List NodeIndex → Nat → List OrderedTree → Prop
  | nil {parent : NodeIndex} {n : Nat} : Stands a parent [] n []
  | cons {parent i : NodeIndex} {inner tops : List NodeIndex} {n : Nat} {data : NodeData}
      {below rest : List OrderedTree} :
      i.toNat = n → a.get? i = some ⟨data, parent, inner, false⟩ →
        Stands a i inner (n + 1) below →
        Stands a parent tops (n + 1 + OrderedTree.total below) rest →
        Stands a parent (i :: tops) n (.node data below :: rest)

namespace Stands

/-- Trees stay where they stand if all slots from the first of theirs on are kept. -/
theorem keep (h : a.Stands parent tops n trees)
    (hkeep : ∀ x node, n ≤ x.toNat → a.get? x = some node → b.get? x = some node) :
    b.Stands parent tops n trees := by
  induction h with
  | nil => exact .nil
  | cons hi hget _ _ ihbelow ihrest =>
      refine .cons hi (hkeep _ _ (by omega) hget) ?_ ?_
      · exact ihbelow fun x node hx => hkeep x node (by omega)
      · exact ihrest fun x node hx => hkeep x node (by omega)

/-- Trees are read where they stand. -/
theorem reads (h : a.Stands parent tops n trees) : a.Reads tops trees := by
  induction h with
  | nil => exact .nil
  | cons _ hget _ _ ihbelow ihrest =>
      refine .cons (data?_of_get? hget) ?_ ihrest
      rw [children_of_get? hget]
      exact ihbelow

/-- A walk lists the slots in which trees stand, in order. -/
theorem walk (h : a.Stands parent tops n trees) :
    ∃ listed, a.Walk tops listed ∧
      listed.map NodeIndex.toNat = List.range' n (OrderedTree.total trees) := by
  induction h with
  | nil => exact ⟨[], .done, rfl⟩
  | @cons _ i _ _ n _ below rest hi hget _ _ ihbelow ihrest =>
      obtain ⟨inside, hinside, hinsideSlots⟩ := ihbelow
      obtain ⟨beside, hbeside, hbesideSlots⟩ := ihrest
      refine ⟨i :: (inside ++ beside), .visit (isLive_of_get? hget) ?_, ?_⟩
      · rw [children_of_get? hget]
        exact hinside.append hbeside
      · rw [List.map_cons, List.map_append, hi, hinsideSlots, hbesideSlots, List.range'_append_1,
          ← List.range'_succ, OrderedTree.total_cons]
        congr 1
        omega

end Stands

/-! ## Trees that have been planted -/

/-- Below a live node a live child is attached, and all live nodes stay so. -/
theorem isLive_attach_below (data : NodeData) (hroom : a.size < 0xFFFFFFFF)
    (hlive : a.isLive parent = true) (x : NodeIndex) :
    (Edit.attach parent data a).2.isLive x = (x == a.nextIndex || a.isLive x) :=
  isLive_attach hroom (parent_ne_nextIndex hroom (.inr hlive)) x

/-- From `a` to `b` trees have been planted below a node, with their roots at the
indices `tops`. They stand in the new slots, and the old slots are what they were,
but for the list of the node. -/
structure Planted (parent : NodeIndex) (trees : List OrderedTree) (tops : List NodeIndex)
    (a b : Arena) : Prop where
  size : b.size = a.size + OrderedTree.total trees
  old : ∀ {x node}, a.get? x = some node →
    b.get? x = some { node with children := node.children ++ if x = parent then tops else [] }
  stands : b.Stands parent tops a.size trees

namespace Planted

theorem nil : Planted parent [] [] a a where
  size := rfl
  old := by
    intro x node hget
    rw [hget, ite_self, List.append_nil]
  stands := .nil

theorem isLive (h : Planted parent trees tops a b) (hlive : a.isLive x = true) :
    b.isLive x = true := by
  obtain ⟨node, hget, hnode⟩ := isLive_iff.mp hlive
  exact isLive_iff.mpr ⟨_, h.old hget, hnode⟩

/-- All old slots but that of the node are kept. -/
theorem keep (h : Planted parent trees tops a b) (hget : a.get? x = some node)
    (hne : x ≠ parent) : b.get? x = some node := by
  rw [h.old hget, if_neg hne, List.append_nil]

/-- A node is attached, trees are planted below it, and then others beside it. -/
theorem cons {inner : List NodeIndex} (hroom : a.size < 0xFFFFFFFF)
    (hlive : a.isLive parent = true)
    (hbelow : Planted a.nextIndex below inner (Edit.attach parent data a).2 b)
    (hrest : Planted parent rest tops b c) :
    Planted parent (.node data below :: rest) (a.nextIndex :: tops) a c := by
  have hattached := get?_attach_below data hroom hlive
  have hsize : b.size = a.size + 1 + OrderedTree.total below := by
    rw [hbelow.size, size_attach]
  have hparent := isSome_get?_of_isLive hlive
  have hne : a.nextIndex ≠ parent := (ne_nextIndex hroom hparent).symm
  refine ⟨?size, ?old, ?stands⟩
  case size =>
    rw [hrest.size, hsize, OrderedTree.total_cons]
    omega
  case old =>
    intro x node hget
    have hxne : x ≠ a.nextIndex := ne_nextIndex hroom (Option.isSome_of_eq_some hget)
    have hfirst := hattached x
    rw [if_neg hxne, hget, Option.map_some] at hfirst
    rw [hrest.old (hbelow.keep hfirst hxne)]
    by_cases hx : x = parent <;> simp [hx]
  case stands =>
    have hnode : b.get? a.nextIndex = some ⟨data, parent, inner, false⟩ := by
      have hfresh := hattached a.nextIndex
      rw [if_pos rfl] at hfresh
      rw [hbelow.old hfresh, if_pos rfl]
      rfl
    have hinside := hbelow.stands
    rw [size_attach] at hinside
    have hbeside := hrest.stands
    rw [hsize] at hbeside
    refine .cons (toNat_nextIndex hroom) (hrest.keep hnode hne) (hinside.keep ?_) hbeside
    -- The slot that all is planted below comes before those of the trees below the new node.
    intro x node hx hget
    refine hrest.keep hget ?_
    rintro rfl
    have := (isSome_get?_iff.mp hparent).2
    omega

end Planted

end Arena

namespace Edit

open Arena

variable {a : Arena} {parent : NodeIndex}

/-- Trees are planted below each live node, if there is room for them. -/
theorem plantAll_of_room (trees : List OrderedTree) (hlive : a.isLive parent = true)
    (hroom : a.size + OrderedTree.total trees ≤ 0xFFFFFFFF) :
    ∃ b tops, plantAll parent trees a = (.ok (), b) ∧ Planted parent trees tops a b := by
  induction trees using OrderedTree.forest_induction generalizing parent a with
  | nil => exact ⟨a, [], plantAll_nil parent a, .nil⟩
  | cons data below rest ihbelow ihrest =>
      rw [OrderedTree.total_cons] at hroom
      have hfree : a.size < 0xFFFFFFFF := by omega
      obtain ⟨node, hnode⟩ := live_of_isLive hlive
      have hchild : addChild parent data a = (.ok a.nextIndex, (attach parent data a).2) :=
        addChild_of_live data hnode
      have hattached := isLive_attach_below data hfree hlive
      have hnext : (attach parent data a).2.isLive a.nextIndex = true := by
        rw [hattached, beq_self_eq_true, Bool.true_or]
      have hstill : (attach parent data a).2.isLive parent = true := by
        rw [hattached, hlive, Bool.or_true]
      obtain ⟨b, inner, hb, hplantedBelow⟩ :=
        ihbelow hnext (by rw [size_attach]; omega)
      obtain ⟨c, tops, hc, hplantedRest⟩ :=
        ihrest (hplantedBelow.isLive hstill) (by rw [hplantedBelow.size, size_attach]; omega)
      refine ⟨c, a.nextIndex :: tops, ?_, hplantedBelow.cons hfree hlive hplantedRest⟩
      rw [plantAll_cons, Attempt.bind_of_ok hchild, Attempt.bind_of_ok hb, hc]

end Edit

namespace Arena

/-- A tree stands in the first slots of the arena in which it is planted alone. -/
theorem stands_plant (tree : OrderedTree) (hsize : tree.size ≤ 0xFFFFFFFF) :
    ∃ a, Edit.plant tree .empty = (.ok ⟨0⟩, a) ∧ a.size = tree.size ∧
      a.Stands .none [⟨0⟩] 0 [tree] := by
  obtain ⟨data, below⟩ := tree
  rw [OrderedTree.size] at hsize
  have hroom : empty.size < 0xFFFFFFFF := by decide
  have hroot : Edit.addRoot data .empty = (.ok ⟨0⟩, (Edit.attach .none data .empty).2) := rfl
  have hget : (Edit.attach .none data .empty).2.get? ⟨0⟩ = some (.fresh data .none) := by
    rw [get?_attach hroom (nextIndex_ne_none hroom).symm]
    exact if_pos rfl
  have hafter : (Edit.attach .none data .empty).2.size = 1 := size_attach _ _ _
  obtain ⟨a, tops, ha, hplanted⟩ := Edit.plantAll_of_room below (isLive_of_get? hget)
    (by rw [hafter, Nat.add_comm]; exact hsize)
  refine ⟨a, ?_, ?_, .cons rfl (hplanted.old hget) ?_ .nil⟩
  · rw [Edit.plant, Attempt.bind_of_ok hroot, Attempt.bind_of_ok ha]
    rfl
  · rw [hplanted.size, hafter, OrderedTree.size, Nat.add_comm]
  · have hstands := hplanted.stands
    rw [hafter] at hstands
    exact hstands

/-- A finite ordered tree that there are indices for is planted in an empty arena,
each child below the index that its parent was given and siblings in order. This
succeeds with the first index, the walk from there goes through all slots in order,
and what is read there, through data and children, is the tree and nothing else. -/
theorem plant_then_read (tree : OrderedTree) (hsize : tree.size ≤ 0xFFFFFFFF) :
    ∃ a, Edit.plant tree .empty = (.ok ⟨0⟩, a) ∧ a.size = tree.size ∧
      (a.descendantsAndSelf ⟨0⟩).map NodeIndex.toNat = List.range tree.size ∧
      ∀ trees, a.Reads [⟨0⟩] trees ↔ trees = [tree] := by
  obtain ⟨a, hplant, hasize, hstands⟩ := stands_plant tree hsize
  refine ⟨a, hplant, hasize, ?_, fun trees => ⟨fun h => h.unique hstands.reads, ?_⟩⟩
  · obtain ⟨listed, hwalk, hslots⟩ := hstands.walk
    rw [OrderedTree.total, OrderedTree.total, Nat.add_zero, ← List.range_eq_range'] at hslots
    have hlength : listed.length = a.size := by
      rw [hasize, ← List.length_map (f := NodeIndex.toNat), hslots, List.length_range]
    -- There are as many turns as slots.
    have hlisted : a.descendantsAndSelf ⟨0⟩ = listed := hwalk.walkOnto_eq (Nat.le_of_eq hlength)
    rw [hlisted, hslots]
  · rintro rfl
    exact hstands.reads

/-- A unit with a namespace that holds a type with a member, and something after it. -/
def nestedUnit : OrderedTree :=
  .node .compilationUnit
    [.node (.namespaceDeclaration ⟨2⟩)
      [.node (.identifier "N") [],
        .node (.typeDeclaration .classType ⟨4⟩)
          [.node (.identifier "C") [], .node (.other "member") []]],
      .node (.other "end of file") []]

/-- What comes after the namespace is planted after all that is in it. -/
theorem plant_nestedUnit :
    nestedUnit.size ≤ 0xFFFFFFFF ∧
    ∃ a, Edit.plant nestedUnit .empty = (.ok ⟨0⟩, a) ∧ a.size = 7 ∧
      (a.descendantsAndSelf ⟨0⟩).map NodeIndex.toNat = [0, 1, 2, 3, 4, 5, 6] ∧
      ∀ trees, a.Reads [⟨0⟩] trees ↔ trees = [nestedUnit] := by
  have hsize : nestedUnit.size ≤ 0xFFFFFFFF := by decide
  exact ⟨hsize, plant_then_read nestedUnit hsize⟩

end Arena

end Decompiled
