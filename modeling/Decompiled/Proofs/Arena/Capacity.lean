import Decompiled.Proofs.Arena.Builders

/-!
# The capacity of an arena

An arena takes any number of slots, but an index has 32 bits and its greatest value
stands for "no node". So the index that comes back for a new slot is that of the slot
only below 2^32 - 1 slots. A declaration takes two slots, and both of its indices are
right only below one slot less.

* `Arena.AddsOne`: what becomes of one new node, in an arena of any size.
* `Arena.Declares`: a declaration and its name, each found by its index.
* `Arena.addPair_at_last_slot`, `Arena.addPair_of_full`: what becomes of the second
  node where there is no room for it.
* `Arena.capacity_exact`: when indices are right.
-/

namespace Decompiled.Arena

variable {a : Arena} {parent i : NodeIndex} {data : NodeData} {kind : NodeKind} {text : String}

/-! ## One node -/

/-- What adding a node comes to. The slot is made whatever the size of the arena is. -/
structure AddsOne (a : Arena) (parent : NodeIndex) (data : NodeData) (index : NodeIndex)
    (b : Arena) : Prop where
  grown : b.size = a.size + 1
  slot : b.nodes[a.size]? = some (.fresh data parent)
  /-- The index is the position of the new slot and finds a node just while there is
  room. -/
  named : (index.toNat = a.size ∧ (b.get? index).isSome) ↔ a.size < 0xFFFFFFFF
  found : a.size < 0xFFFFFFFF → b.get? index = some (.fresh data parent)
  full : a.size = 0xFFFFFFFF → index = .none
  /-- Later on, the index stands for "no node" or finds an older node, which may have
  been given one more child. -/
  beyond : 0xFFFFFFFF < a.size → index = .none ∨
    ∃ node added, a.get? index = some node ∧
      b.get? index = some { node with children := node.children ++ added }

/-- Nothing is found from 2^32 - 1 on. -/
theorem toNat_lt_of_isSome_get? (hthere : (a.get? i).isSome) : i.toNat < 0xFFFFFFFF := by
  have hlt := i.toNat_lt
  have hne : i.toNat ≠ 0xFFFFFFFF := fun habs =>
    (isSome_get?_iff.mp hthere).1 (NodeIndex.toNat_inj.mp habs)
  omega

theorem nextIndex_of_full (hfull : a.size = 0xFFFFFFFF) : a.nextIndex = .none := by
  unfold nextIndex
  rw [hfull]
  rfl

theorem slot_attach (hparent : parent = .none ∨ a.isLive parent = true) :
    (Edit.attach parent data a).2.nodes[a.size]? = some (.fresh data parent) := by
  show ((a.append (.fresh data parent)).modify parent _).nodes[a.size]? = _
  have hpushed : (a.append (.fresh data parent)).nodes[a.size]? = some (.fresh data parent) :=
    Array.getElem?_push_size
  unfold modify
  split
  · exact hpushed
  · -- A live parent lies before the new slot.
    rename_i hsome
    have hlive : a.isLive parent = true :=
      hparent.resolve_left fun hnone => hsome (NodeIndex.isNone_iff.mpr hnone)
    have hlt := (isSome_get?_iff.mp (isSome_get?_of_isLive hlive)).2
    rw [Array.getElem?_modify, if_neg (by omega), hpushed]

/-- An older slot keeps what it holds, in an arena of any size. -/
theorem get?_attach_of_lt (parent : NodeIndex) (data : NodeData) (hlt : i.toNat < a.size) :
    (Edit.attach parent data a).2.get? i = (a.get? i).map fun node =>
      { node with children := node.children ++ if i = parent then [a.nextIndex] else [] } := by
  show ((a.append (.fresh data parent)).modify parent _).get? i = _
  have hkept : (a.append (.fresh data parent)).get? i = a.get? i := by
    rw [get?_append, if_neg (Nat.ne_of_lt hlt)]
    split
    · rename_i hnone
      rw [NodeIndex.isNone_iff.mp hnone, get?_none]
    · rfl
  rw [get?_modify, hkept]
  split <;> simp

/-- Past the capacity the index of the new slot is one that was given before. -/
theorem get?_attach_nextIndex_of_beyond (hbeyond : 0xFFFFFFFF < a.size)
    (hsome : a.nextIndex ≠ .none) :
    ∃ node added, a.get? a.nextIndex = some node ∧
      (Edit.attach parent data a).2.get? a.nextIndex =
        some { node with children := node.children ++ added } := by
  -- An index is below 2^32, and so many slots are there.
  have hwrapped : a.nextIndex.toNat < a.size :=
    Nat.lt_of_lt_of_le a.nextIndex.toNat_lt hbeyond
  obtain ⟨node, hget⟩ := Option.isSome_iff_exists.mp (isSome_get?_iff.mpr ⟨hsome, hwrapped⟩)
  refine ⟨node, if a.nextIndex = parent then [a.nextIndex] else [], hget, ?_⟩
  rw [get?_attach_of_lt parent data hwrapped, hget]
  rfl

theorem AddsOne.attach (hparent : parent = .none ∨ a.isLive parent = true) :
    a.AddsOne parent data a.nextIndex (Edit.attach parent data a).2 := by
  have hfound : a.size < 0xFFFFFFFF →
      (Edit.attach parent data a).2.get? a.nextIndex = some (.fresh data parent) := by
    intro hroom
    rw [get?_attach hroom (parent_ne_nextIndex hroom hparent), if_pos rfl]
  refine ⟨size_attach a parent data, slot_attach hparent, ⟨?_, fun hroom => ?_⟩, hfound,
    nextIndex_of_full, fun hbeyond => ?_⟩
  · rintro ⟨hpos, hthere⟩
    exact hpos ▸ toNat_lt_of_isSome_get? hthere
  · exact ⟨toNat_nextIndex hroom, Option.isSome_of_eq_some (hfound hroom)⟩
  · by_cases hnone : a.nextIndex = .none
    · exact .inl hnone
    · exact .inr (get?_attach_nextIndex_of_beyond hbeyond hnone)

/-! ## A declaration and its name -/

/-- An outcome of adding a declaration with a name, in which both can be found: the
index that comes back is that of the first new slot, and the slot for the name holds
that of the second. -/
def Declares (a : Arena) (kind : NodeKind) (text : String)
    (outcome : Except TreeError NodeIndex × Arena) : Prop :=
  ∃ index child, outcome.1 = .ok index ∧
    index.toNat = a.size ∧ outcome.2.kind? index = some kind ∧
    outcome.2.nameSlot? index = some child ∧
    child.toNat = a.size + 1 ∧ outcome.2.identifierName? child = some text

section Named

variable {name : NodeIndex → NodeData → NodeData}

/-- With room for both nodes, both are found. -/
theorem Declares.addPair (hroom : a.size + 2 ≤ 0xFFFFFFFF) (hlive : a.isLive parent = true)
    (hkind : ∀ c, (name c data).kind = kind)
    (hname : ∀ c, (name c data).nameSlot? = c.toOption) :
    a.Declares kind text (Edit.addPair parent data (.identifier text) name a) := by
  obtain ⟨node, hnode⟩ := live_of_isLive hlive
  have hroom' : a.size < 0xFFFFFFFF := by omega
  rw [addPair_apply hnode, live_attach_nextIndex data hroom' hlive]
  obtain ⟨c, hc, -, hget⟩ := get?_pair data (.identifier text) name (by omega) hlive
  have hfirst := hget a.nextIndex
  rw [if_pos rfl] at hfirst
  have hsecond := hget c
  have hne : c ≠ a.nextIndex := by
    rintro rfl
    omega
  rw [if_neg hne, if_pos rfl] at hsecond
  refine ⟨a.nextIndex, c, rfl, toNat_nextIndex hroom', ?_, ?_, ?_, ?_⟩
  · exact (congrArg (Option.map Node.kind) hfirst).trans (congrArg some (hkind c))
  · have hsome : c ≠ .none := (bounds_of_get? hsecond).1
    show ((a.pair parent data (.identifier text) name).get? a.nextIndex).bind _ = some c
    rw [hfirst]
    exact (hname c).trans (toOption_eq_some_iff.mpr ⟨rfl, hsome⟩)
  · rw [hc, toNat_nextIndex hroom']
  · exact identifierName?_eq_some_iff.mpr (data?_of_get? hsecond)

/-- Where both are found, there was room for both. -/
theorem Declares.room {outcome : Except TreeError NodeIndex × Arena}
    (h : a.Declares kind text outcome) : a.size + 2 ≤ 0xFFFFFFFF := by
  obtain ⟨-, child, -, -, -, -, hpos, hname⟩ := h
  obtain ⟨node, hget, -⟩ := Option.bind_eq_some_iff.mp hname
  have hlt := toNat_lt_of_isSome_get? (Option.isSome_of_eq_some hget)
  omega

/-- In the last slot with an index, a declaration goes without a name, and no error
tells. -/
theorem addPair_at_last_slot {inner : NodeData} (hlive : a.isLive parent = true)
    (hlast : a.size + 1 = 0xFFFFFFFF) :
    (Edit.addPair parent data inner name a).1 = .ok a.nextIndex ∧
      (Edit.addPair parent data inner name a).2.data? a.nextIndex =
        some (name .none data) := by
  obtain ⟨node, hnode⟩ := live_of_isLive hlive
  have hroom : a.size < 0xFFFFFFFF := by omega
  have hfirst := live_attach_nextIndex data hroom hlive
  have hsize : (Edit.attach parent data a).2.size = 0xFFFFFFFF :=
    (size_attach a parent data).trans hlast
  have hlt : a.nextIndex.toNat < (Edit.attach parent data a).2.size := by
    rw [toNat_nextIndex hroom, hsize]
    exact hroom
  rw [addPair_apply hnode, hfirst]
  refine ⟨rfl, ?_⟩
  -- The second node takes the slot without an index, and the declaration names that.
  show (Arena.get? (pair ..) a.nextIndex).map Node.data = _
  unfold pair
  rw [get?_modifyData, get?_attach_of_lt _ inner hlt, (live_eq_ok_iff.mp hfirst).1,
    nextIndex_of_full hsize]
  simp [Node.fresh]

/-- Past it, the first node is added, and then the index of no node is refused. -/
theorem addPair_of_full {inner : NodeData} (hlive : a.isLive parent = true)
    (hfull : a.size = 0xFFFFFFFF) :
    Edit.addPair parent data inner name a =
      (.error (.invalidIndex .none), (Edit.attach parent data a).2) := by
  obtain ⟨node, hnode⟩ := live_of_isLive hlive
  rw [addPair_apply hnode, nextIndex_of_full hfull]
  rfl

end Named

/-- The capacity of an arena of any size. A node is added without a parent and below any
live node, and its index is right just below 2^32 - 1 slots. Below a live node, a type
declaration and a namespace get two nodes that can both be found just while the arena
has room for two more slots with an index. -/
theorem capacity_exact (a : Arena) (data : NodeData) :
    (∃ index b, Edit.addRoot data a = (.ok index, b) ∧ a.AddsOne .none data index b) ∧
    ∀ parent, a.isLive parent = true →
      (∃ index b, Edit.addChild parent data a = (.ok index, b) ∧
        a.AddsOne parent data index b) ∧
      (∀ typeKind text,
        a.Declares .typeDeclaration text (Edit.addTypeDeclaration parent typeKind text a) ↔
          a.size + 2 ≤ 0xFFFFFFFF) ∧
      ∀ text,
        a.Declares .namespaceDeclaration text (Edit.addNamespace parent text a) ↔
          a.size + 2 ≤ 0xFFFFFFFF := by
  refine ⟨⟨_, _, rfl, .attach (.inl rfl)⟩, fun parent hlive => ⟨?_, fun typeKind text => ?_,
    fun text => ?_⟩⟩
  · obtain ⟨node, hnode⟩ := live_of_isLive hlive
    exact ⟨_, _, Edit.addChild_of_live data hnode, .attach (.inr hlive)⟩
  · exact ⟨Declares.room, fun hroom => .addPair hroom hlive (fun c => rfl) fun c => rfl⟩
  · exact ⟨Declares.room, fun hroom => .addPair hroom hlive (fun c => rfl) fun c => rfl⟩

/-- An arena of compilation units without parents. -/
def crowd (count : Nat) : Arena := ⟨Array.replicate count (.fresh .compilationUnit .none)⟩

@[simp] theorem size_crowd (count : Nat) : (crowd count).size = count := Array.size_replicate

theorem isLive_crowd {count : Nat} (h : 0 < count) : (crowd count).isLive ⟨0⟩ = true := by
  have hget : (crowd count).get? ⟨0⟩ = some (.fresh .compilationUnit .none) := by
    show (Array.replicate count _)[0]? = _
    rw [Array.getElem?_replicate, if_pos h]
  rw [isLive_of_get? hget]
  rfl

/-- With two indices left, a namespace and its name are found. With one left, a child is
found, and of a namespace not both nodes. With none left, the index of a child stands
for "no node". -/
theorem capacity_of_crowds :
    (crowd 0xFFFFFFFD).Declares .namespaceDeclaration "N"
        (Edit.addNamespace ⟨0⟩ "N" (crowd 0xFFFFFFFD)) ∧
      ¬ (crowd 0xFFFFFFFE).Declares .namespaceDeclaration "N"
        (Edit.addNamespace ⟨0⟩ "N" (crowd 0xFFFFFFFE)) ∧
      (∃ index b, Edit.addChild ⟨0⟩ (.other "N") (crowd 0xFFFFFFFE) = (.ok index, b) ∧
        b.get? index = some (.fresh (.other "N") ⟨0⟩)) ∧
      ∃ b, Edit.addChild ⟨0⟩ (.other "N") (crowd 0xFFFFFFFF) = (.ok .none, b) := by
  have hlive : ∀ count, 0 < count → (crowd count).isLive ⟨0⟩ = true := fun _ => isLive_crowd
  obtain ⟨-, -, htwo⟩ :=
    (capacity_exact (crowd 0xFFFFFFFD) (.other "N")).2 ⟨0⟩ (hlive _ (by decide))
  obtain ⟨⟨index, b, hone, hadded⟩, -, hnot⟩ :=
    (capacity_exact (crowd 0xFFFFFFFE) (.other "N")).2 ⟨0⟩ (hlive _ (by decide))
  obtain ⟨⟨lost, c, hfull, hadds⟩, -⟩ :=
    (capacity_exact (crowd 0xFFFFFFFF) (.other "N")).2 ⟨0⟩ (hlive _ (by decide))
  simp only [size_crowd] at htwo hnot
  refine ⟨(htwo "N").mpr (by decide), fun habs => ?_, ⟨index, b, hone, hadded.found ?_⟩, c, ?_⟩
  · exact absurd ((hnot "N").mp habs) (by decide)
  · rw [size_crowd]
    decide
  · rw [hfull, hadds.full (size_crowd _)]

end Decompiled.Arena
