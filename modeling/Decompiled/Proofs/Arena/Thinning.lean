import Decompiled.Proofs.Arena.Cut

/-!
# Thinned arenas

The edits of the passes cut subtrees off and give identifiers other names. An
arena is thinned by any number of these: what is live in the thinned arena was
live before, hangs where it hung before and carries what it carried, but for
names of identifiers; and it lists what it listed before less what is gone.

* `Arena.Thins`: the relation; it can be followed from edit to edit.
* `Arena.Thins.within_iff`: subtrees of live nodes are the same in both.
* `Arena.thins_cut`, `Arena.thins_rename`: the two edits.
-/

namespace Decompiled

/-- What a node carries, without the name of an identifier. -/
def NodeData.anonymous : NodeData → NodeData
  | identifier _ => identifier ""
  | data => data

theorem NodeData.kind_anonymous (data : NodeData) : data.anonymous.kind = data.kind := by
  cases data <;> rfl

namespace Arena

variable {a b c : Arena} {i x y p : NodeIndex}

/-- `b` is `a` with some subtrees cut off and some identifiers renamed. -/
structure Thins (a b : Arena) : Prop where
  size : b.size = a.size
  links : b.WellLinked
  live : ∀ {x}, b.isLive x = true → a.isLive x = true
  carries : ∀ x, (b.data? x).map NodeData.anonymous = (a.data? x).map NodeData.anonymous
  hangs : ∀ {x}, b.isLive x = true → b.parent? x = a.parent? x
  /-- A removed node hangs where it hung before or nowhere. -/
  hung : ∀ {x p}, b.parent? x = some p → a.parent? x = some p
  lists : ∀ {x}, b.isLive x = true → b.children x = (a.children x).filter b.isLive

namespace Thins

theorem refl (hlinks : a.WellLinked) : Thins a a where
  size := rfl
  links := hlinks
  live := fun h => h
  carries := fun _ => rfl
  hangs := fun _ => rfl
  hung := fun h => h
  lists := by
    intro x hx
    exact (List.filter_eq_self.mpr fun c hc => hlinks.child_live hx hc).symm

theorem trans (hab : Thins a b) (hbc : Thins b c) : Thins a c where
  size := hbc.size.trans hab.size
  links := hbc.links
  live := fun h => hab.live (hbc.live h)
  carries := fun x => (hbc.carries x).trans (hab.carries x)
  hangs := fun h => (hbc.hangs h).trans (hab.hangs (hbc.live h))
  hung := fun h => hab.hung (hbc.hung h)
  lists := by
    intro x hx
    rw [hbc.lists hx, hab.lists (hbc.live hx), List.filter_filter]
    apply List.filter_congr
    intro d _
    rcases hd : c.isLive d with _ | _
    · rfl
    · rw [hbc.live hd]
      rfl

/-- What was removed before is still removed. -/
theorem gone (h : Thins a b) (hgone : a.isLive x = false) : b.isLive x = false := by
  rw [Bool.eq_false_iff] at hgone ⊢
  exact fun hlive => hgone (h.live hlive)

/-! ## What is the same in both -/

theorem kind? (h : Thins a b) (x : NodeIndex) : b.kind? x = a.kind? x := by
  have hsame := congrArg (Option.map NodeData.kind) (h.carries x)
  rw [Option.map_map, Option.map_map] at hsame
  have hkind : NodeData.kind ∘ NodeData.anonymous = NodeData.kind :=
    funext NodeData.kind_anonymous
  rw [hkind] at hsame
  rw [kind?_eq, kind?_eq, hsame]

/-- Whatever is read off what a node carries, but for its name as an
identifier. -/
theorem read {α : Type} (h : Thins a b) {f : Node → Option α}
    (hf : ∀ node, f node = f (.fresh node.data.anonymous .none)) (x : NodeIndex) :
    (b.get? x).bind f = (a.get? x).bind f := by
  have hread : ∀ c : Arena, (c.get? x).bind f =
      ((c.data? x).map NodeData.anonymous).bind fun data => f (.fresh data .none) := by
    intro c
    unfold data?
    rcases c.get? x with _ | node
    · rfl
    · exact hf node
  rw [hread, hread, h.carries]

theorem attributeTarget? (h : Thins a b) (x : NodeIndex) :
    b.attributeTarget? x = a.attributeTarget? x := by
  refine h.read (fun node => ?_) x
  rcases node with ⟨data, _, _, _⟩
  cases data <;> rfl

theorem attributeTypeRef? (h : Thins a b) (x : NodeIndex) :
    b.attributeTypeRef? x = a.attributeTypeRef? x := by
  refine h.read (fun node => ?_) x
  rcases node with ⟨data, _, _, _⟩
  cases data <;> rfl

theorem argument? (h : Thins a b) (x : NodeIndex) : b.argument? x = a.argument? x := by
  refine h.read (fun node => ?_) x
  rcases node with ⟨data, _, _, _⟩
  cases data <;> rfl

theorem nameSlot? (h : Thins a b) (x : NodeIndex) : b.nameSlot? x = a.nameSlot? x := by
  refine h.read (fun node => ?_) x
  rcases node with ⟨data, _, _, _⟩
  cases data <;> rfl

theorem isSome_get? (h : Thins a b) (x : NodeIndex) : (b.get? x).isSome = (a.get? x).isSome :=
  isSome_get?_congr h.size x

/-- What is in a subtree was in it before. -/
theorem within (h : Thins a b) (hw : b.Within y x) : a.Within y x :=
  hw.congr fun _ _ _ hp => h.hung hp

/-- Above a live node the two arenas agree. -/
theorem within_iff (h : Thins a b) (hx : b.isLive x = true) : b.Within y x ↔ a.Within y x := by
  constructor
  · exact h.within
  · -- Upwards from a live node all are live, and each hangs where it hung.
    intro hw
    induction hw with
    | self => exact .self
    | child _ hp ih =>
        have hpb := (h.hangs hx).trans hp
        exact .child (ih ((h.links.together hpb).symm.trans hx)) hpb

/-- A live node whose children are all live lists all of them. -/
theorem lists_all (h : Thins a b) (hx : b.isLive x = true)
    (hall : ∀ c ∈ a.children x, b.isLive c = true) : b.children x = a.children x := by
  rw [h.lists hx, List.filter_eq_self.mpr hall]

/-- The members of a node that is left are those of its members that are. -/
theorem members_eq (h : Thins a b) (hx : b.isLive x = true) :
    b.members x = (a.members x).filter b.isLive := by
  rw [Arena.members_eq, Arena.members_eq, h.lists hx, h.nameSlot?, List.filter_filter,
    List.filter_filter]
  apply List.filter_congr
  intro c _
  rw [h.kind?, Bool.and_comm]

end Thins

/-! ## Renaming an identifier -/

/-- The arena after an attempt to give an identifier another name. -/
def rename (a : Arena) (i : NodeIndex) (name : String) : Arena :=
  (Edit.setIdentifierName i name a).2

/-- A live identifier is renamed, and nothing else is. -/
theorem setIdentifierName_apply (a : Arena) (i : NodeIndex) (name : String) :
    Edit.setIdentifierName i name a =
      match a.liveOfKind i .identifier with
      | .error e => (.error e, a)
      | .ok _ =>
          (.ok (), a.modify i fun node => { node with data := .identifier name }) := by
  unfold Edit.setIdentifierName
  rw [Attempt.bind_apply, Edit.liveOfKind_apply]
  rcases a.liveOfKind i .identifier with _ | node <;> rfl

theorem liveOfKind_eq_ok_iff {kind : NodeKind} {node : Node} :
    a.liveOfKind i kind = .ok node ↔ a.live i = .ok node ∧ node.kind = kind := by
  unfold liveOfKind
  rcases a.live i with e | found
  · simp
  · by_cases h : found.kind = kind
    · simp only [if_pos h, Except.ok.injEq]
      exact ⟨fun heq => ⟨heq, heq ▸ h⟩, And.left⟩
    · simp only [if_neg h, Except.ok.injEq]
      constructor
      · intro hbad
        cases hbad
      · rintro ⟨rfl, hkind⟩
        exact absurd hkind h

theorem liveOfKind_of_isLive {kind : NodeKind} (hlive : a.isLive i = true)
    (hkind : a.kind? i = some kind) : ∃ node, a.liveOfKind i kind = .ok node := by
  obtain ⟨node, hget, hremoved⟩ := isLive_iff.mp hlive
  refine ⟨node, liveOfKind_eq_ok_iff.mpr ⟨live_eq_ok_iff.mpr ⟨hget, hremoved⟩, ?_⟩⟩
  unfold Arena.kind? at hkind
  rw [hget] at hkind
  exact Option.some.inj hkind

/-- A new name changes what one live identifier carries, if anything. -/
theorem rename_cases (a : Arena) (i : NodeIndex) (name : String) :
    a.rename i name = a ∨
    (a.isLive i = true ∧ a.kind? i = some .identifier ∧
      a.rename i name = a.modify i fun node => { node with data := .identifier name }) := by
  unfold rename
  rw [setIdentifierName_apply]
  rcases h : a.liveOfKind i .identifier with e | node
  · exact .inl rfl
  · obtain ⟨hlive, hkind⟩ := liveOfKind_eq_ok_iff.mp h
    refine .inr ⟨isLive_of_live hlive, ?_, rfl⟩
    unfold Arena.kind?
    rw [(live_eq_ok_iff.mp hlive).1]
    exact congrArg some hkind

section Rename

variable (a : Arena) (i x : NodeIndex) (name : String)

@[simp] theorem size_rename : (a.rename i name).size = a.size := by
  rcases rename_cases a i name with h | ⟨-, -, h⟩
  · rw [h]
  · rw [h, size_modify]

theorem isLive_rename : (a.rename i name).isLive x = a.isLive x := by
  rcases rename_cases a i name with h | ⟨-, -, h⟩
  · rw [h]
  · rw [h]
    exact isLive_modifyData (fun _ => .identifier name) a i x

theorem children_rename : (a.rename i name).children x = a.children x := by
  rcases rename_cases a i name with h | ⟨-, -, h⟩
  · rw [h]
  · rw [h]
    exact children_modifyData (fun _ => .identifier name) a i x

theorem parent?_rename : (a.rename i name).parent? x = a.parent? x := by
  rcases rename_cases a i name with h | ⟨-, -, h⟩
  · rw [h]
  · rw [h]
    exact parent?_modifyData (fun _ => .identifier name) a i x

/-- No node but the identifier carries anything else. -/
theorem data?_rename_of_ne (hne : x ≠ i) : (a.rename i name).data? x = a.data? x := by
  rcases rename_cases a i name with h | ⟨-, -, h⟩
  · rw [h]
  · unfold data?
    rw [h, get?_modify, if_neg hne]

theorem data?_rename_self (hlive : a.isLive i = true) (hkind : a.kind? i = some .identifier) :
    (a.rename i name).data? i = some (.identifier name) := by
  obtain ⟨node, hnode⟩ := liveOfKind_of_isLive hlive hkind
  have hget := (live_eq_ok_iff.mp (liveOfKind_eq_ok_iff.mp hnode).1).1
  unfold rename
  rw [setIdentifierName_apply, hnode]
  show ((a.modify i _).get? i).map Node.data = _
  rw [get?_modify, if_pos rfl, hget]
  rfl

/-- Apart from names, nothing changes. -/
theorem anonymous_rename :
    ((a.rename i name).data? x).map NodeData.anonymous =
      (a.data? x).map NodeData.anonymous := by
  by_cases hx : x = i
  · subst hx
    rcases rename_cases a x name with h | ⟨hlive, hkind, -⟩
    · rw [h]
    · rw [data?_rename_self a x name hlive hkind]
      rw [kind?_eq] at hkind
      obtain ⟨data, hdata, hkind⟩ := Option.map_eq_some_iff.mp hkind
      rw [hdata]
      cases data <;> first | rfl | cases hkind
  · rw [data?_rename_of_ne a i x name hx]

end Rename

theorem thins_rename (hlinks : a.WellLinked) (i : NodeIndex) (name : String) :
    Thins a (a.rename i name) where
  size := size_rename a i name
  links := hlinks.of_views (fun x => isLive_rename a i x name)
    (fun x => parent?_rename a i x name) (fun x => children_rename a i x name)
  live := fun h => by rwa [isLive_rename] at h
  carries := fun x => anonymous_rename a i x name
  hangs := fun _ => parent?_rename a i _ name
  hung := fun h => by rwa [parent?_rename] at h
  lists := by
    intro x hx
    rw [isLive_rename] at hx
    rw [children_rename]
    refine (List.filter_eq_self.mpr fun c hc => ?_).symm
    rw [isLive_rename]
    exact hlinks.child_live hx hc

/-! ## Cutting a subtree off -/

theorem thins_cut (hlinks : a.WellLinked) (i : NodeIndex) : Thins a (a.cut i) := by
  rcases hlive : a.isLive i with _ | _
  · rw [cut_of_not_live hlive]
    exact .refl hlinks
  rcases hp : a.parent? i with _ | p
  · rw [cut_of_parentless hp]
    exact .refl hlinks
  refine ⟨size_cut a i, hlinks.cut i, ?_, ?_, ?_, ?_, ?_⟩
  · intro x hx
    exact ((isLive_cut hlinks hlive hp x).mp hx).1
  · intro x
    rw [data?_cut hlinks]
  · intro x hx
    have hne : x ≠ i := by
      rintro rfl
      exact ((isLive_cut hlinks hlive hp x).mp hx).2 .self
    rw [parent?_cut hlinks hlive hp, if_neg hne]
  · intro x q hq
    rw [parent?_cut hlinks hlive hp] at hq
    split at hq
    · cases hq
    · exact hq
  · intro x hx
    obtain ⟨hxlive, hxout⟩ := (isLive_cut hlinks hlive hp x).mp hx
    -- Of the children of a node outside the subtree only its top is in it.
    have hchild : ∀ c ∈ a.children x, (a.cut i).isLive c = true ↔ c ≠ i := by
      intro c hc
      rw [isLive_cut hlinks hlive hp]
      constructor
      · rintro ⟨-, hout⟩ rfl
        exact hout .self
      · intro hne
        refine ⟨hlinks.child_live hxlive hc, fun hw => ?_⟩
        exact hxout (hw.up hne (hlinks.listed_iff.mp hc))
    rw [children_cut hlinks hlive hp]
    split
    · rw [(hlinks.nodup x).erase_eq_filter]
      apply List.filter_congr
      intro c hc
      rw [Bool.eq_iff_iff, hchild c hc, bne_iff_ne]
    · rename_i hxp
      refine (List.filter_eq_self.mpr fun c hc => ?_).symm
      rw [hchild c hc]
      rintro rfl
      exact hxp (hlinks.parent_unique hc (hlinks.listed_iff.mpr hp))

end Arena

end Decompiled
