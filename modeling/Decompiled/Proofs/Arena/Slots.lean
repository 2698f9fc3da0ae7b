import Decompiled.Proofs.Arena.Builders
import Decompiled.Proofs.Arena.Thinning

/-!
# Names stay with their owners

An attribute holds the index of the reference to its type, and a declaration
that of the identifier of its name. In a well slotted arena each of these is
among the children of its live owner. Building keeps this, and so does all that
removes names only together with their owners.

* `Arena.WellSlotted`: the invariant.
* `Arena.WellSlotted.grows`: it holds of what is built.
* `Arena.SparesNames`: names go with their owners only.
* `Arena.WellSlotted.membersExact`: what the members of a declaration are then.
-/

namespace Decompiled

/-- Whether nodes of a kind are what attributes and declarations name. -/
def NodeKind.isName : NodeKind → Bool
  | identifier => true
  | typeReference => true
  | _ => false

theorem NodeData.isName_of_slot? {data : NodeData} {c : NodeIndex} {kind : NodeKind}
    (h : data.slot? = some (c, kind)) : kind.isName = true := by
  cases data <;> cases h <;> rfl

theorem NodeData.slot?_anonymous (data : NodeData) : data.anonymous.slot? = data.slot? := by
  cases data <;> rfl

namespace Arena

variable {a b c : Arena} {i p x n : NodeIndex} {kind : NodeKind}

/-- What a live node names is a child of it, of the kind that is meant. -/
def WellSlotted (a : Arena) : Prop :=
  ∀ i n kind, a.isLive i = true → a.slot? i = some (n, kind) →
    n ∈ a.children i ∧ a.kind? n = some kind

/-- It suffices to look at each slot. -/
instance : Decidable a.WellSlotted :=
  decidable_of_iff
    (∀ k < a.size, a.isLive (.ofCount k) = true → ∀ s ∈ a.slot? (.ofCount k),
      s.1 ∈ a.children (.ofCount k) ∧ a.kind? s.1 = some s.2)
    (by
      refine ⟨fun h i n kind hlive => ?_, fun h _ _ hlive s hs => h _ s.1 s.2 hlive hs⟩
      exact of_slots (P := fun i => ∀ s ∈ a.slot? i,
        s.1 ∈ a.children i ∧ a.kind? s.1 = some s.2) h hlive (n, kind))

/-! ## Building -/

theorem WellSlotted.grows (h : a.WellSlotted) (hgrows : Grows a b) : b.WellSlotted := by
  intro i n kind hlive hslot
  rcases hget : a.get? i with _ | node
  · obtain ⟨-, -, hmem, hkind, -⟩ := hgrows.fresh hget hslot
    exact ⟨hmem, hkind⟩
  · obtain ⟨added, hget'⟩ := hgrows.old hget
    have hsame : b.isLive i = a.isLive i := by
      rw [isLive_of_get? hget, isLive_of_get? hget']
    rw [hsame] at hlive
    rw [hgrows.slot?_eq hget] at hslot
    obtain ⟨hmem, hkind⟩ := h i n kind hlive hslot
    refine ⟨?_, hgrows.kind?_of_old hkind⟩
    rw [children_of_get? hget] at hmem
    rw [children_of_get? hget']
    exact List.mem_append_left added hmem

/-! ## Removing -/

/-- `b` is `a` thinned in such a way that names have gone with their parents
only. -/
structure SparesNames (a b : Arena) : Prop extends Thins a b where
  spares : ∀ {x p kind}, a.parent? x = some p → a.kind? x = some kind →
    kind.isName = true → b.isLive p = true → b.isLive x = true

theorem SparesNames.refl (hlinks : a.WellLinked) : SparesNames a a where
  toThins := .refl hlinks
  spares := fun hp _ _ hlive => (hlinks.together hp).trans hlive

theorem SparesNames.trans (hab : SparesNames a b) (hbc : SparesNames b c) :
    SparesNames a c where
  toThins := hab.toThins.trans hbc.toThins
  spares := by
    intro x p kind hp hkind hname hlive
    have hx : b.isLive x = true := hab.spares hp hkind hname (hbc.live hlive)
    refine hbc.spares ((hab.hangs hx).trans hp) ?_ hname hlive
    rw [hab.kind?, hkind]

theorem sparesNames_rename (hlinks : a.WellLinked) (i : NodeIndex) (name : String) :
    SparesNames a (a.rename i name) where
  toThins := thins_rename hlinks i name
  spares := by
    intro x p kind hp _ _ hlive
    rw [isLive_rename] at hlive ⊢
    exact (hlinks.together hp).trans hlive

/-- A node that is no name itself may be cut off. -/
theorem sparesNames_cut (hlinks : a.WellLinked)
    (hkind : ∀ kind, a.kind? i = some kind → kind.isName = false) :
    SparesNames a (a.cut i) where
  toThins := thins_cut hlinks i
  spares := by
    intro x p kind hp hx hname hlive
    rcases hi : a.isLive i with _ | _
    · rw [cut_of_not_live hi] at hlive ⊢
      exact (hlinks.together hp).trans hlive
    rcases hq : a.parent? i with _ | q
    · rw [cut_of_parentless hq] at hlive ⊢
      exact (hlinks.together hp).trans hlive
    rw [isLive_cut hlinks hi hq] at hlive ⊢
    refine ⟨(hlinks.together hp).trans hlive.1, fun hw => hlive.2 (hw.up ?_ hp)⟩
    rintro rfl
    rw [hkind kind hx] at hname
    cases hname

theorem Thins.slot?_eq (h : Thins a b) (x : NodeIndex) : b.slot? x = a.slot? x := by
  have hread : ∀ c : Arena,
      c.slot? x = ((c.data? x).map NodeData.anonymous).bind NodeData.slot? := by
    intro c
    unfold slot?
    rcases c.data? x with _ | data
    · rfl
    · exact (NodeData.slot?_anonymous data).symm
  rw [hread, hread, h.carries]

theorem WellSlotted.spared (h : a.WellSlotted) (hspares : SparesNames a b)
    (hlinks : a.WellLinked) : b.WellSlotted := by
  intro i n kind hlive hslot
  rw [hspares.slot?_eq] at hslot
  obtain ⟨hmem, hkind⟩ := h i n kind (hspares.live hlive) hslot
  obtain ⟨data, -, hdata⟩ := Option.bind_eq_some_iff.mp hslot
  rw [hspares.lists hlive, List.mem_filter, hspares.kind?]
  refine ⟨⟨hmem, ?_⟩, hkind⟩
  exact hspares.spares (hlinks.listed_iff.mp hmem) hkind (NodeData.isName_of_slot? hdata) hlive

/-! ## Members -/

/-- One child of a live declaration is the identifier of its name, and its
members are the other ones but for the sections of attributes, in order. -/
def MembersExact (a : Arena) : Prop :=
  ∀ d, a.isLive d = true →
    (a.kind? d = some .typeDeclaration ∨ a.kind? d = some .namespaceDeclaration) →
    ∃ n ∈ a.children d, a.nameSlot? d = some n ∧ a.kind? n = some .identifier ∧
      a.members d = ((a.children d).erase n).filter fun c =>
        a.kind? c != some .attributeSection

/-- Declarations name an identifier. -/
theorem exists_slot_of_kind
    (hkind : a.kind? i = some .typeDeclaration ∨ a.kind? i = some .namespaceDeclaration) :
    ∃ n, a.slot? i = some (n, .identifier) ∧ a.nameSlot? i = n.toOption := by
  unfold slot? nameSlot?
  rw [kind?_eq] at hkind
  unfold data? at hkind ⊢
  rcases hget : a.get? i with _ | ⟨data, _, _, _⟩
  · rw [hget] at hkind
    rcases hkind with habs | habs <;> cases habs
  · rw [hget] at hkind
    cases data with
    | typeDeclaration _ name => exact ⟨name, rfl, rfl⟩
    | namespaceDeclaration name => exact ⟨name, rfl, rfl⟩
    | _ => rcases hkind with habs | habs <;> cases habs

theorem WellSlotted.membersExact (h : a.WellSlotted) (hlinks : a.WellLinked) :
    a.MembersExact := by
  intro d hlive hkind
  obtain ⟨n, hslot, hname⟩ := exists_slot_of_kind hkind
  obtain ⟨hmem, hident⟩ := h d n .identifier hlive hslot
  have hne : n ≠ .none := (isSome_get?_iff.mp (hlinks.child_there hmem)).1
  rw [toOption_eq_some_iff.mpr ⟨rfl, hne⟩] at hname
  refine ⟨n, hmem, hname, hident, ?_⟩
  rw [members_eq, hname, (hlinks.nodup d).erase_eq_filter, List.filter_filter]
  apply List.filter_congr
  intro c _
  rw [Bool.and_comm]
  rfl

end Arena

end Decompiled
