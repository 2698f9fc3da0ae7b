import Decompiled.Arena.Remove

/-!
# What can be seen of an arena

All that can be asked about a slot comes down to five views of it: whether it
is there, whether its node is live, what the node carries, its parent, and its
children. The lemmas here say what appending and attaching do to the views, and
that a slot holds nothing else.

* `Arena.get?_eq_of_views`: slots with the same views hold the same.
* `Arena.parent?_attach`, `Arena.children_attach`, `Arena.isLive_attach`: a new
  child.
-/

namespace Decompiled

namespace Arena

variable {a b : Arena} {i : NodeIndex} {node : Node}

/-- What a node carries, removed or not. -/
def data? (a : Arena) (index : NodeIndex) : Option NodeData := (a.get? index).map Node.data

/-- The index by which a declaration names its identifier, if it names one. -/
def nameSlot? (a : Arena) (index : NodeIndex) : Option NodeIndex :=
  (a.get? index).bind fun node => node.data.nameSlot?

/-- A node is in its slot and has been removed. -/
def Removed (a : Arena) (index : NodeIndex) : Prop :=
  ∃ node, a.get? index = some node ∧ node.removed = true

/-- Whether an arena has no more slots than indices can name. -/
def Fits (a : Arena) : Prop := a.size ≤ 0xFFFFFFFF

instance (a : Arena) : Decidable a.Fits := inferInstanceAs (Decidable (_ ≤ _))

/-- The optional form of an index is the index itself, unless it stands for "no
node". -/
theorem toOption_eq_some_iff {p : NodeIndex} : i.toOption = some p ↔ i = p ∧ i ≠ .none := by
  unfold NodeIndex.toOption
  by_cases hnone : i.isNone
  · simp [NodeIndex.isNone_iff.mp hnone]
  · have hne : i ≠ .none := fun habs => hnone (NodeIndex.isNone_iff.mpr habs)
    simp [hnone, hne]

theorem toOption_inj {j : NodeIndex} : i.toOption = j.toOption ↔ i = j := by
  refine ⟨fun h => ?_, congrArg NodeIndex.toOption⟩
  by_cases hi : i = .none
  · rcases hj : j.toOption with _ | p
    · by_cases hne : j = .none
      · rw [hi, hne]
      · rw [toOption_eq_some_iff.mpr ⟨rfl, hne⟩] at hj
        cases hj
    · rw [hi, hj] at h
      cases h
  · rw [toOption_eq_some_iff.mpr ⟨rfl, hi⟩] at h
    exact (toOption_eq_some_iff.mp h.symm).1.symm

/-! ## The views of a slot -/

/-- An index finds a node exactly when it names a slot that is there. -/
theorem isSome_get?_iff :
    (a.get? i).isSome ↔ i ≠ .none ∧ i.toNat < a.size := by
  unfold get? size
  by_cases hnone : i.isNone
  · simp [NodeIndex.isNone_iff.mp hnone]
  · have hne : i ≠ .none := fun h => hnone (NodeIndex.isNone_iff.mpr h)
    simp [hnone, hne]

/-- Nothing is found at the index of no slot, nor past the last slot. -/
theorem get?_eq_none_iff : a.get? i = none ↔ i = .none ∨ a.size ≤ i.toNat := by
  rw [← Option.not_isSome_iff_eq_none, isSome_get?_iff, Decidable.not_and_iff_not_or_not,
    Ne, Decidable.not_not, Nat.not_lt]

theorem bounds_of_get? (h : a.get? i = some node) : i ≠ .none ∧ i.toNat < a.size :=
  isSome_get?_iff.mp (Option.isSome_of_eq_some h)

theorem isLive_of_get? (h : a.get? i = some node) : a.isLive i = !node.removed := by
  simp [isLive, h]

theorem children_of_get? (h : a.get? i = some node) : a.children i = node.children := by
  simp [children, h]

theorem parent?_of_get? (h : a.get? i = some node) :
    a.parent? i = node.parent.toOption := by
  simp [parent?, h]

theorem data?_of_get? (h : a.get? i = some node) : a.data? i = some node.data := by
  simp [data?, h]

theorem children_of_absent (h : a.get? i = none) : a.children i = [] := by
  simp [children, h]

theorem kind?_of_absent (h : a.get? i = none) : a.kind? i = none := by
  unfold kind?
  rw [h]
  rfl

/-- A live index finds a node that is not marked as removed. -/
theorem isLive_iff : a.isLive i ↔ ∃ node, a.get? i = some node ∧ node.removed = false := by
  unfold isLive
  rcases a.get? i with _ | node <;> simp

theorem isSome_get?_of_isLive (hlive : a.isLive i = true) : (a.get? i).isSome := by
  obtain ⟨node, hget, -⟩ := isLive_iff.mp hlive
  exact Option.isSome_of_eq_some hget

/-- A node that is not live has been removed, or never was. -/
theorem removed_iff : a.Removed i ↔ (a.get? i).isSome ∧ a.isLive i = false := by
  unfold Removed isLive
  rcases a.get? i with _ | node <;> simp

/-- What holds of the nodes of all slots in turn holds of each live node. -/
theorem of_slots {P : NodeIndex → Prop}
    (h : ∀ k < a.size, a.isLive (.ofCount k) = true → P (.ofCount k))
    (hlive : a.isLive i = true) : P i := by
  obtain ⟨node, hget, -⟩ := isLive_iff.mp hlive
  have hi := h i.toNat (bounds_of_get? hget).2
  rw [NodeIndex.ofCount_toNat] at hi
  exact hi hlive

theorem live_eq_ok_iff :
    a.live i = .ok node ↔ a.get? i = some node ∧ node.removed = false := by
  unfold live
  rcases a.get? i with _ | found
  · simp
  · by_cases h : found.removed
    · simp only [h, if_true]
      constructor
      · intro hbad
        cases hbad
      · rintro ⟨hsame, hlive⟩
        cases hsame
        rw [h] at hlive
        cases hlive
    · simp only [h, if_false, Bool.false_eq_true]
      constructor
      · intro hsame
        cases hsame
        exact ⟨rfl, by simpa using h⟩
      · rintro ⟨hsame, -⟩
        cases hsame
        rfl

theorem isLive_of_live (h : a.live i = .ok node) : a.isLive i = true :=
  isLive_iff.mpr ⟨node, live_eq_ok_iff.mp h⟩

theorem live_of_isLive (hlive : a.isLive i = true) : ∃ node, a.live i = .ok node := by
  obtain ⟨node, hget⟩ := isLive_iff.mp hlive
  exact ⟨node, live_eq_ok_iff.mpr hget⟩

theorem kind?_eq (a : Arena) (i : NodeIndex) : a.kind? i = (a.data? i).map NodeData.kind := by
  unfold kind? data?
  rcases a.get? i with _ | node <;> rfl

/-- The members of a node are its children less its name and the sections of
attributes. -/
theorem members_eq (a : Arena) (i : NodeIndex) :
    a.members i = (a.children i).filter fun c =>
      some c != a.nameSlot? i && a.kind? c != some .attributeSection := by
  unfold members children nameSlot?
  rcases a.get? i with _ | node <;> rfl

theorem identifierName?_eq_some_iff {name : String} :
    a.identifierName? i = some name ↔ a.data? i = some (.identifier name) := by
  unfold identifierName? data?
  rcases a.get? i with _ | node
  · simp
  · rw [Option.bind_some, Option.map_some]
    rcases node.data <;> simp

/-- A name is read off what a node carries. -/
theorem identifierName?_congr (h : b.data? i = a.data? i) :
    b.identifierName? i = a.identifierName? i := by
  apply Option.ext
  intro name
  rw [identifierName?_eq_some_iff, identifierName?_eq_some_iff, h]

/-- The nodes with a name are the identifiers. -/
theorem isSome_identifierName?_iff :
    (a.identifierName? i).isSome ↔ a.kind? i = some .identifier := by
  unfold identifierName? kind? Node.kind
  rcases a.get? i with _ | node
  · simp
  · rw [Option.bind_some, Option.map_some]
    rcases node.data <;> simp [NodeData.kind]

/-- The nodes with an argument are those of this kind. -/
theorem isSome_argument?_iff : (a.argument? i).isSome ↔ a.kind? i = some .argument := by
  unfold argument? kind? Node.kind
  rcases a.get? i with _ | node
  · simp
  · rw [Option.bind_some, Option.map_some]
    rcases node.data <;> simp [NodeData.kind]

/-- The type reference of a node is what the attribute in it names, unless that
stands for "no node". -/
theorem attributeTypeRef?_iff {t : NodeIndex} :
    a.attributeTypeRef? i = some t ↔ a.data? i = some (.attributeUse t) ∧ t ≠ .none := by
  unfold attributeTypeRef? data?
  rcases a.get? i with _ | ⟨data, _, _, _⟩
  · simp
  · cases data with
    | attributeUse typeRef =>
        show typeRef.toOption = some t ↔
          some (NodeData.attributeUse typeRef) = some (.attributeUse t) ∧ t ≠ .none
        rw [toOption_eq_some_iff, Option.some.injEq, NodeData.attributeUse.injEq]
        exact and_congr_right fun heq => by rw [heq]
    | _ => simp

/-- The parent of a node is the one it names, unless it names none. -/
theorem parent?_eq_some_iff {c p : NodeIndex} :
    a.parent? c = some p ↔ p ≠ .none ∧ ∃ node, a.get? c = some node ∧ node.parent = p := by
  unfold parent?
  rw [Option.bind_eq_some_iff]
  constructor
  · rintro ⟨node, hget, hparent⟩
    obtain ⟨rfl, hne⟩ := toOption_eq_some_iff.mp hparent
    exact ⟨hne, node, hget, rfl⟩
  · rintro ⟨hne, node, hget, rfl⟩
    exact ⟨node, hget, toOption_eq_some_iff.mpr ⟨rfl, hne⟩⟩

theorem parent?_ne_none {c p : NodeIndex} (h : a.parent? c = some p) : p ≠ .none :=
  (parent?_eq_some_iff.mp h).1

/-- A node with a parent is in a slot. -/
theorem exists_of_parent? {c p : NodeIndex} (h : a.parent? c = some p) :
    ∃ node, a.get? c = some node ∧ node.parent = p :=
  (parent?_eq_some_iff.mp h).2

/-! ## Slots that keep a view -/

section Keep

variable {g : Node → Node}

theorem isLive_congr (h : b.get? i = (a.get? i).map g)
    (hg : ∀ node, (g node).removed = node.removed) : b.isLive i = a.isLive i := by
  unfold isLive
  rw [h]
  rcases a.get? i with _ | node <;> simp [hg]

theorem children_congr (h : b.get? i = (a.get? i).map g)
    (hg : ∀ node, (g node).children = node.children) : b.children i = a.children i := by
  unfold children
  rw [h]
  rcases a.get? i with _ | node <;> simp [hg]

theorem parent?_congr (h : b.get? i = (a.get? i).map g)
    (hg : ∀ node, (g node).parent = node.parent) : b.parent? i = a.parent? i := by
  unfold parent?
  rw [h]
  rcases a.get? i with _ | node <;> simp [hg]

theorem data?_congr (h : b.get? i = (a.get? i).map g)
    (hg : ∀ node, (g node).data = node.data) : b.data? i = a.data? i := by
  unfold data?
  rw [h]
  rcases a.get? i with _ | node <;> simp [hg]

end Keep

/-! ## A slot is made of its views -/

/-- A slot holds the node that its views show. -/
theorem get?_of_views (hlive : a.isLive i = !node.removed) (hdata : a.data? i = some node.data)
    (hparent : a.parent? i = node.parent.toOption) (hchildren : a.children i = node.children) :
    a.get? i = some node := by
  obtain ⟨found, hget, hfound⟩ := Option.map_eq_some_iff.mp hdata
  rw [isLive_of_get? hget, Bool.not_inj_iff] at hlive
  rw [parent?_of_get? hget, toOption_inj] at hparent
  rw [children_of_get? hget] at hchildren
  rw [hget]
  rcases node with ⟨data, parent, children, removed⟩
  rcases found with ⟨data', parent', children', removed'⟩
  cases hfound
  cases hparent
  cases hchildren
  cases hlive
  rfl

/-- Arenas of one size have the same slots. -/
theorem isSome_get?_congr (hsize : b.size = a.size) (i : NodeIndex) :
    (b.get? i).isSome = (a.get? i).isSome := by
  rw [Bool.eq_iff_iff, isSome_get?_iff, isSome_get?_iff, hsize]

/-- Two slots with the same views hold the same node. -/
theorem get?_eq_of_views (hthere : (a.get? i).isSome = (b.get? i).isSome)
    (hlive : a.isLive i = b.isLive i) (hdata : a.data? i = b.data? i)
    (hparent : a.parent? i = b.parent? i) (hchildren : a.children i = b.children i) :
    a.get? i = b.get? i := by
  rcases hb : b.get? i with _ | node
  · rw [hb] at hthere
    exact Option.isNone_iff_eq_none.mp (Option.isSome_eq_false_iff.mp hthere)
  · apply get?_of_views
    · exact hlive.trans (isLive_of_get? hb)
    · exact hdata.trans (data?_of_get? hb)
    · exact hparent.trans (parent?_of_get? hb)
    · exact hchildren.trans (children_of_get? hb)

/-! ## Changing what a node carries -/

section Carry

variable (f : NodeData → NodeData)

theorem get?_modifyData (a : Arena) (i j : NodeIndex) :
    (a.modify i fun node => { node with data := f node.data }).get? j =
      (a.get? j).map fun node =>
        if j = i then { node with data := f node.data } else node := by
  rw [get?_modify]
  by_cases h : j = i
  · simp [h]
  · simp [h]

theorem isLive_modifyData (a : Arena) (i j : NodeIndex) :
    (a.modify i fun node => { node with data := f node.data }).isLive j = a.isLive j :=
  isLive_congr (get?_modifyData f a i j) (by intro node; split <;> rfl)

theorem parent?_modifyData (a : Arena) (i j : NodeIndex) :
    (a.modify i fun node => { node with data := f node.data }).parent? j = a.parent? j :=
  parent?_congr (get?_modifyData f a i j) (by intro node; split <;> rfl)

theorem children_modifyData (a : Arena) (i j : NodeIndex) :
    (a.modify i fun node => { node with data := f node.data }).children j = a.children j :=
  children_congr (get?_modifyData f a i j) (by intro node; split <;> rfl)

end Carry

/-! ## A new child -/

section Attach

variable {parent : NodeIndex} {data : NodeData}

theorem size_attach (a : Arena) (parent : NodeIndex) (data : NodeData) :
    (Edit.attach parent data a).2.size = a.size + 1 := by
  simp [Edit.attach]

theorem nextIndex_ne_none (hroom : a.size < 0xFFFFFFFF) : a.nextIndex ≠ .none := by
  intro h
  have hpos : a.nextIndex.toNat = a.size := NodeIndex.toNat_ofCount_of_lt (by omega)
  rw [h] at hpos
  have : NodeIndex.none.toNat = 0xFFFFFFFF := rfl
  omega

theorem toNat_nextIndex (hroom : a.size < 0xFFFFFFFF) : a.nextIndex.toNat = a.size :=
  NodeIndex.toNat_ofCount_of_lt (by omega)

theorem get?_nextIndex (hroom : a.size < 0xFFFFFFFF) : a.get? a.nextIndex = none := by
  rcases h : a.get? a.nextIndex with _ | node
  · rfl
  · have hlt := (bounds_of_get? h).2
    rw [toNat_nextIndex hroom] at hlt
    omega

/-- Attaching fills the next slot and adds it to the list of its parent. -/
theorem get?_attach (hroom : a.size < 0xFFFFFFFF) (hparent : parent ≠ a.nextIndex)
    (i : NodeIndex) :
    (Edit.attach parent data a).2.get? i =
      if i = a.nextIndex then some (.fresh data parent)
      else (a.get? i).map fun node =>
        if i = parent then { node with children := node.children ++ [a.nextIndex] }
        else node := by
  have happend : (a.append (.fresh data parent)).get? i =
      if i = a.nextIndex then some (.fresh data parent) else a.get? i := by
    rw [get?_append]
    by_cases hi : i = a.nextIndex
    · subst hi
      have hsome : a.nextIndex.isNone = false := by
        rw [Bool.eq_false_iff]
        exact fun h => nextIndex_ne_none hroom (NodeIndex.isNone_iff.mp h)
      simp [hsome, toNat_nextIndex hroom]
    · by_cases hnone : i.isNone
      · have habsent : i = .none := NodeIndex.isNone_iff.mp hnone
        subst habsent
        simp [hi]
      · have hne : i.toNat ≠ a.size := by
          rw [← toNat_nextIndex hroom]
          exact fun h => hi (NodeIndex.toNat_inj.mp h)
        simp [hi, hnone, hne]
  show ((a.append (.fresh data parent)).modify parent _).get? i = _
  rw [get?_modify, happend]
  by_cases hi : i = a.nextIndex
  · have hne : ¬ a.nextIndex = parent := fun h => hparent h.symm
    simp [hi, hne]
  · by_cases hp : i = parent
    · subst hp
      simp [hi]
    · simp [hi, hp]

/-- An older slot keeps what it holds, but for the new child at the end of a list. -/
theorem get?_attach_old (hroom : a.size < 0xFFFFFFFF) (hparent : parent ≠ a.nextIndex)
    (hi : i ≠ a.nextIndex) :
    (Edit.attach parent data a).2.get? i =
      (a.get? i).map fun node =>
        if i = parent then { node with children := node.children ++ [a.nextIndex] }
        else node := by
  rw [get?_attach hroom hparent, if_neg hi]

theorem children_attach (hroom : a.size < 0xFFFFFFFF) (hparent : parent ≠ a.nextIndex)
    (i : NodeIndex) :
    (Edit.attach parent data a).2.children i =
      if i = parent ∧ (a.get? i).isSome then a.children i ++ [a.nextIndex]
      else a.children i := by
  unfold children
  rw [get?_attach hroom hparent]
  by_cases hi : i = a.nextIndex
  · subst hi
    simp [get?_nextIndex hroom, Node.fresh]
  · rcases hget : a.get? i with _ | node
    · simp [hi]
    · rw [if_neg hi]
      by_cases hp : i = parent <;> simp [hp]

theorem parent?_attach (hroom : a.size < 0xFFFFFFFF) (hparent : parent ≠ a.nextIndex)
    (i : NodeIndex) :
    (Edit.attach parent data a).2.parent? i =
      if i = a.nextIndex then parent.toOption else a.parent? i := by
  by_cases hi : i = a.nextIndex
  · simp [parent?, get?_attach hroom hparent, hi, Node.fresh]
  · rw [if_neg hi]
    exact parent?_congr (get?_attach_old hroom hparent hi) (by intro node; split <;> rfl)

theorem isLive_attach (hroom : a.size < 0xFFFFFFFF) (hparent : parent ≠ a.nextIndex)
    (i : NodeIndex) :
    (Edit.attach parent data a).2.isLive i = (i == a.nextIndex || a.isLive i) := by
  by_cases hi : i = a.nextIndex
  · simp [isLive, get?_attach hroom hparent, hi, Node.fresh]
  · rw [beq_false_of_ne hi, Bool.false_or]
    exact isLive_congr (get?_attach_old hroom hparent hi) (by intro node; split <;> rfl)

/-! What hangs where after a new child has been added below a live node, or a
new node below none. -/

theorem toNat_lt_nextIndex (hroom : a.size < 0xFFFFFFFF) (hthere : (a.get? i).isSome) :
    i.toNat < a.nextIndex.toNat := by
  rw [toNat_nextIndex hroom]
  exact (isSome_get?_iff.mp hthere).2

theorem ne_nextIndex (hroom : a.size < 0xFFFFFFFF) (hthere : (a.get? i).isSome) :
    i ≠ a.nextIndex := by
  rintro rfl
  exact Nat.lt_irrefl _ (toNat_lt_nextIndex hroom hthere)

/-- The parent of a new child is there, unless it stands for "no node". -/
theorem isSome_parent_iff (hparent : parent = .none ∨ a.isLive parent = true) :
    (a.get? parent).isSome ↔ parent ≠ .none := by
  constructor
  · exact fun hthere => (isSome_get?_iff.mp hthere).1
  · intro hne
    rcases hparent with hnone | hlive
    · exact absurd hnone hne
    · exact isSome_get?_of_isLive hlive

theorem parent_ne_nextIndex (hroom : a.size < 0xFFFFFFFF)
    (hparent : parent = .none ∨ a.isLive parent = true) : parent ≠ a.nextIndex := by
  by_cases hnone : parent = .none
  · rw [hnone]
    exact (nextIndex_ne_none hroom).symm
  · exact ne_nextIndex hroom ((isSome_parent_iff hparent).mpr hnone)

section Below

variable (hroom : a.size < 0xFFFFFFFF) (hparent : parent = .none ∨ a.isLive parent = true)

include hroom hparent

theorem mem_children_attach {c p : NodeIndex} :
    c ∈ (Edit.attach parent data a).2.children p ↔
      c ∈ a.children p ∨ (c = a.nextIndex ∧ p = parent ∧ p ≠ .none) := by
  have hthere := isSome_parent_iff hparent
  rw [children_attach hroom (parent_ne_nextIndex hroom hparent)]
  by_cases hp : p = parent
  · subst hp
    by_cases hsome : (a.get? p).isSome
    · simp [hsome, hthere.mp hsome]
    · simp [hsome, mt hthere.mpr hsome]
  · simp [hp]

theorem parent?_attach_iff {c p : NodeIndex} :
    (Edit.attach parent data a).2.parent? c = some p ↔
      a.parent? c = some p ∨ (c = a.nextIndex ∧ p = parent ∧ p ≠ .none) := by
  rw [parent?_attach hroom (parent_ne_nextIndex hroom hparent)]
  by_cases hc : c = a.nextIndex
  · have hnew : a.parent? a.nextIndex = none := by
      unfold parent?
      rw [get?_nextIndex hroom]
      rfl
    subst hc
    rw [if_pos rfl, hnew, toOption_eq_some_iff]
    constructor
    · rintro ⟨rfl, hne⟩
      exact .inr ⟨rfl, rfl, hne⟩
    · rintro (habs | ⟨-, rfl, hne⟩)
      · cases habs
      · exact ⟨rfl, hne⟩
  · simp [hc]

end Below

end Attach

end Arena

end Decompiled
