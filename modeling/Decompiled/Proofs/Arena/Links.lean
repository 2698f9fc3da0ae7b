import Decompiled.Proofs.Arena.Views

/-!
# Parents and children agree

An arena is well linked when its child lists and its parents tell the same
story: a node is listed exactly by its parent, lists follow the order in which
slots were made, and a node is removed together with its parent. A removed node
keeps its list and the nodes below it keep their parents, so all of this is
asked of removed nodes as well.

* `Arena.WellLinked`: the invariant.
* `Arena.Within`: the subtree of a node, walked upwards.
* `Arena.WellLinked.attach`: a new child, or a new root, keeps the invariant.
* `Arena.WellLinked.of_views`: so does all that leaves the links alone.
-/

namespace Decompiled

namespace Arena

variable {a b : Arena} {c p i j k : NodeIndex}

/-- Parents and child lists agree, in removed parts of the tree as well. -/
structure WellLinked (a : Arena) : Prop where
  /-- The children of a node stand in the order in which their slots were made. -/
  ascending : ∀ p, (a.children p).Pairwise fun x y => x.toNat < y.toNat
  /-- The slot of a child was made after that of its parent. -/
  younger : ∀ {p c}, c ∈ a.children p → p.toNat < c.toNat
  /-- A node is listed by its parent and by nobody else. -/
  listed_iff : ∀ {p c}, c ∈ a.children p ↔ a.parent? c = some p
  /-- A node and its parent are both live or both removed. -/
  together : ∀ {c p}, a.parent? c = some p → a.isLive c = a.isLive p

theorem wellLinked_empty : empty.WellLinked := by
  have hget : ∀ i, empty.get? i = none := by
    intro i
    unfold get? empty
    split <;> simp
  have hchildren : ∀ p, empty.children p = [] := fun p => children_of_absent (hget p)
  have hparent : ∀ c, empty.parent? c = none := by
    intro c
    simp [parent?, hget]
  constructor
  · intro p
    rw [hchildren]
    exact List.Pairwise.nil
  · intro p c h
    rw [hchildren] at h
    cases h
  · intro p c
    rw [hchildren, hparent]
    simp
  · intro c p h
    rw [hparent] at h
    cases h

/-- The first occurrence in a list is followed by what comes after it. -/
theorem follower?_append {front back : List NodeIndex} (hfront : c ∉ front) :
    follower? c (front ++ c :: back) = back.head? := by
  induction front with
  | nil => simp [follower?]
  | cons first rest ih =>
      obtain ⟨hfirst, hrest⟩ := not_or.mp (mt List.mem_cons.mpr hfront)
      rw [List.cons_append, follower?, if_neg (Ne.symm hfirst), ih hrest]

namespace WellLinked

theorem nodup (h : a.WellLinked) (p : NodeIndex) : (a.children p).Nodup :=
  (h.ascending p).imp fun hlt heq => Nat.ne_of_lt hlt (congrArg NodeIndex.toNat heq)

/-- The slot of a parent was made before that of its child. -/
theorem parent_lt (h : a.WellLinked) (hp : a.parent? c = some p) : p.toNat < c.toNat :=
  h.younger (h.listed_iff.mpr hp)

/-- What a child list holds is in a slot. -/
theorem child_there (h : a.WellLinked) (hc : c ∈ a.children p) : (a.get? c).isSome := by
  obtain ⟨node, hget, -⟩ := exists_of_parent? (h.listed_iff.mp hc)
  exact Option.isSome_of_eq_some hget

/-- A parent is in a slot. -/
theorem exists_parent (h : a.WellLinked) (hp : a.parent? c = some p) :
    ∃ node, a.get? p = some node := by
  have hc := h.listed_iff.mpr hp
  rcases hget : a.get? p with _ | node
  · rw [children_of_absent hget] at hc
    cases hc
  · exact ⟨node, rfl⟩

/-- Members hang in their namespace or type. -/
theorem parent_of_member (h : a.WellLinked) (hc : c ∈ a.members p) : a.parent? c = some p := by
  rw [members_eq, List.mem_filter] at hc
  exact h.listed_iff.mp hc.1

/-- No node is in two lists. -/
theorem parent_unique (h : a.WellLinked) {q : NodeIndex} (hp : c ∈ a.children p)
    (hq : c ∈ a.children q) : p = q := by
  have hboth := (h.listed_iff.mp hp).symm.trans (h.listed_iff.mp hq)
  exact Option.some.inj hboth

/-- The children of a live node are live. -/
theorem child_live (h : a.WellLinked) (hlive : a.isLive p = true)
    (hc : c ∈ a.children p) : a.isLive c = true := by
  rw [h.together (h.listed_iff.mp hc), hlive]

/-- The children of a removed node have been removed. -/
theorem child_removed (h : a.WellLinked) (hp : a.Removed p) (hc : c ∈ a.children p) :
    a.Removed c := by
  refine removed_iff.mpr ⟨h.child_there hc, ?_⟩
  rw [h.together (h.listed_iff.mp hc)]
  exact (removed_iff.mp hp).2

/-- The node after a child is the next one in the list of its parent. -/
theorem nextSibling?_eq_head? (h : a.WellLinked) {front back : List NodeIndex}
    (hlist : a.children p = front ++ c :: back) : a.nextSibling? c = back.head? := by
  have hc : c ∈ a.children p := by simp [hlist]
  have hnodup := h.nodup p
  rw [hlist] at hnodup
  have hfront : c ∉ front := fun hmem =>
    (List.nodup_append.mp hnodup).2.2 c hmem c List.mem_cons_self rfl
  unfold nextSibling?
  rw [h.listed_iff.mp hc, Option.bind_some, hlist, follower?_append hfront]

/-- Whatever leaves the links and the marks alone keeps the invariant. -/
theorem of_views (h : a.WellLinked) (hlive : ∀ i, b.isLive i = a.isLive i)
    (hparent : ∀ i, b.parent? i = a.parent? i)
    (hchildren : ∀ i, b.children i = a.children i) : b.WellLinked := by
  constructor
  · intro p
    rw [hchildren]
    exact h.ascending p
  · intro p c hc
    rw [hchildren] at hc
    exact h.younger hc
  · intro p c
    rw [hchildren, hparent]
    exact h.listed_iff
  · intro c p hp
    rw [hparent] at hp
    rw [hlive, hlive]
    exact h.together hp

/-- Changing what a node carries touches no link. -/
theorem modifyData (h : a.WellLinked) (i : NodeIndex) (f : NodeData → NodeData) :
    (a.modify i fun node => { node with data := f node.data }).WellLinked :=
  h.of_views (isLive_modifyData f a i) (parent?_modifyData f a i) (children_modifyData f a i)

/-- A new node below a live one, or below none, is linked like the others. -/
theorem attach (h : a.WellLinked) {parent : NodeIndex} {data : NodeData}
    (hroom : a.size < 0xFFFFFFFF)
    (hparent : parent = .none ∨ a.isLive parent = true) :
    (Edit.attach parent data a).2.WellLinked := by
  have hne := parent_ne_nextIndex hroom hparent
  constructor
  · intro p
    rw [children_attach hroom hne]
    split
    · -- The new child comes last, and its slot is the last one.
      rw [List.pairwise_append]
      refine ⟨h.ascending p, List.pairwise_singleton _ _, ?_⟩
      intro x hx y hy
      rw [List.mem_singleton.mp hy]
      exact toNat_lt_nextIndex hroom (h.child_there hx)
    · exact h.ascending p
  · intro p c hc
    rcases (mem_children_attach hroom hparent).mp hc with hc | ⟨rfl, rfl, hsome⟩
    · exact h.younger hc
    · exact toNat_lt_nextIndex hroom ((isSome_parent_iff hparent).mpr hsome)
  · intro p c
    rw [mem_children_attach hroom hparent, parent?_attach_iff hroom hparent, h.listed_iff]
  · intro c p hp
    rw [isLive_attach hroom hne, isLive_attach hroom hne]
    rcases (parent?_attach_iff hroom hparent).mp hp with hp | ⟨rfl, rfl, hsome⟩
    · -- An old node and its parent are what they were.
      obtain ⟨node, hget, -⟩ := exists_of_parent? hp
      obtain ⟨above, habove⟩ := h.exists_parent hp
      have hc : c ≠ a.nextIndex := ne_nextIndex hroom (Option.isSome_of_eq_some hget)
      have hp' : p ≠ a.nextIndex := ne_nextIndex hroom (Option.isSome_of_eq_some habove)
      rw [beq_false_of_ne hc, beq_false_of_ne hp', h.together hp]
    · rcases hparent with hnone | hlive
      · exact absurd hnone hsome
      · simp [hlive]

end WellLinked

/-! ## Subtrees -/

/-- `Within a top i`: the node `i` is `top` or below it. -/
inductive Within (a : Arena) (top : NodeIndex) : NodeIndex → Prop
  | self : Within a top top
  | child {p c : NodeIndex} : Within a top p → a.parent? c = some p → Within a top c

namespace Within

theorem trans (hij : a.Within i j) (hjk : a.Within j k) : a.Within i k := by
  induction hjk with
  | self => exact hij
  | child _ hp ih => exact .child ih hp

/-- A node of a subtree other than its top is below a child of the top. -/
theorem exists_child (h : a.Within i k) (hne : k ≠ i) :
    ∃ c, a.parent? c = some i ∧ a.Within c k := by
  induction h with
  | self => exact absurd rfl hne
  | @child p c _ hp ih =>
      by_cases hpi : p = i
      · subst hpi
        exact ⟨c, hp, .self⟩
      · obtain ⟨d, hd, hdp⟩ := ih hpi
        exact ⟨d, hd, .child hdp hp⟩

/-- One step up from a node of a subtree other than its top. -/
theorem exists_parent (h : a.Within i k) (hne : k ≠ i) :
    ∃ p, a.parent? k = some p ∧ a.Within i p := by
  cases h with
  | self => exact absurd rfl hne
  | child hp hpar => exact ⟨_, hpar, hp⟩

/-- The parent of a node is in the subtree that the node is in but not the top
of. -/
theorem up (h : a.Within i k) (hne : k ≠ i) (hp : a.parent? k = some p) : a.Within i p := by
  obtain ⟨q, hq, hw⟩ := h.exists_parent hne
  rw [hp] at hq
  exact Option.some.inj hq ▸ hw

/-- Nothing else is above a node without a parent. -/
theorem eq_of_parentless (h : a.Within i k) (hk : a.parent? k = none) : k = i := by
  cases h with
  | self => rfl
  | child _ hp =>
      rw [hk] at hp
      cases hp

/-- Subtrees are made of parents alone. -/
theorem congr (h : a.Within i k)
    (hparent : ∀ x y, a.Within i y → a.parent? x = some y → b.parent? x = some y) :
    b.Within i k := by
  induction h with
  | self => exact .self
  | child hw hp ih => exact .child ih (hparent _ _ hw hp)

theorem le (hlinks : a.WellLinked) (h : a.Within i k) : i.toNat ≤ k.toNat := by
  induction h with
  | self => exact Nat.le_refl _
  | child _ hp ih => exact Nat.le_trans ih (Nat.le_of_lt (hlinks.parent_lt hp))

/-- No two nodes are below each other. -/
theorem antisymm (hlinks : a.WellLinked) (hik : a.Within i k) (hki : a.Within k i) : i = k :=
  NodeIndex.toNat_inj.mp (Nat.le_antisymm (hik.le hlinks) (hki.le hlinks))

/-- A subtree is live as a whole or removed as a whole. -/
theorem isLive_eq (hlinks : a.WellLinked) (h : a.Within i k) : a.isLive k = a.isLive i := by
  induction h with
  | self => rfl
  | child _ hp ih => rw [hlinks.together hp, ih]

/-- Of two subtrees with a common node one lies in the other. -/
theorem comparable (hi : a.Within i k) (hj : a.Within j k) :
    a.Within i j ∨ a.Within j i := by
  induction hi with
  | self => exact .inr hj
  | @child p c hw hp ih =>
      by_cases hc : c = j
      · exact .inl (hc ▸ .child hw hp)
      · exact ih (hj.up hc hp)

end Within

/-- A parent is in no subtree of its child. -/
theorem WellLinked.not_within_parent (h : a.WellLinked) (hp : a.parent? c = some p) :
    ¬ a.Within c p := by
  intro hw
  have hle := hw.le h
  have hlt := h.parent_lt hp
  omega

/-- The subtrees of two children of one node have nothing in common. -/
theorem WellLinked.siblings_apart (h : a.WellLinked) {d : NodeIndex}
    (hc : a.parent? c = some p) (hd : a.parent? d = some p) (hcd : c ≠ d)
    (hwc : a.Within c k) : ¬ a.Within d k := by
  intro hwd
  rcases hwc.comparable hwd with hw | hw
  · exact h.not_within_parent hc (hw.up (Ne.symm hcd) hd)
  · exact h.not_within_parent hd (hw.up hcd hc)

end Arena

end Decompiled
