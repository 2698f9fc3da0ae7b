import Decompiled.Proofs.Arena.Reachable

/-!
# Arenas at a later time

No slot is ever given up, and little of what a slot says about its place in the
tree can change: its node may lose its parent, when it is removed, and its child
list may lose entries and get new ones at the end. Once a node has been removed,
nothing about its place changes any more.

* `Arena.Precedes`: how an arena and a later one compare; it can be followed
  from change to change.
* `Arena.precedes_attach`, `Arena.precedes_patch`, `Arena.precedes_cut`: the
  changes.
* `Arena.covers_keepsHistory`: all operations are made of these.
-/

namespace Decompiled

namespace Arena

variable {a b c : Arena} {x : NodeIndex}

/-- What was in a slot of `a` is still there in `b`, and hangs where it hung or
has been removed. -/
structure Precedes (a b : Arena) : Prop where
  size : a.size ≤ b.size
  /-- A removed node keeps its place. -/
  settled : ∀ {x}, (a.get? x).isSome → a.isLive x = false →
    b.isLive x = false ∧ b.parent? x = a.parent? x ∧ b.children x = a.children x
  hangs : ∀ {x}, (a.get? x).isSome → b.isLive x = true → b.parent? x = a.parent? x
  hung : ∀ {x}, (a.get? x).isSome → b.parent? x = a.parent? x ∨ b.parent? x = none
  /-- What is left of a child list comes first, and new nodes after it. -/
  lists : ∀ {x}, (a.get? x).isSome → ∃ kept added, b.children x = kept ++ added ∧
    kept.Sublist (a.children x) ∧ ∀ d ∈ added, a.size ≤ d.toNat
  /-- A live node below none stays. -/
  stays : ∀ {x}, a.isLive x = true → a.parent? x = none → b.isLive x = true

/-- A slot is there at any later time. -/
theorem isSome_get?_of_size_le (hsize : a.size ≤ b.size) (hthere : (a.get? x).isSome) :
    (b.get? x).isSome := by
  obtain ⟨hne, hlt⟩ := isSome_get?_iff.mp hthere
  exact isSome_get?_iff.mpr ⟨hne, Nat.lt_of_lt_of_le hlt hsize⟩

namespace Precedes

theorem refl (a : Arena) : a.Precedes a where
  size := Nat.le_refl _
  settled := fun _ hdead => ⟨hdead, rfl, rfl⟩
  hangs := fun _ _ => rfl
  hung := fun _ => .inl rfl
  lists := fun {x} _ => ⟨a.children x, [], (List.append_nil _).symm, .refl _, by simp⟩
  stays := fun hlive _ => hlive

/-- What was live later on was live before. -/
theorem live (h : a.Precedes b) (hthere : (a.get? x).isSome) (hlive : b.isLive x = true) :
    a.isLive x = true := by
  rcases hdead : a.isLive x with _ | _
  · rw [(h.settled hthere hdead).1] at hlive
    cases hlive
  · rfl

theorem trans (hab : a.Precedes b) (hbc : b.Precedes c) : a.Precedes c where
  size := Nat.le_trans hab.size hbc.size
  settled := by
    intro x hthere hdead
    obtain ⟨hdeadb, hparentb, hchildrenb⟩ := hab.settled hthere hdead
    obtain ⟨hdeadc, hparentc, hchildrenc⟩ :=
      hbc.settled (isSome_get?_of_size_le hab.size hthere) hdeadb
    exact ⟨hdeadc, hparentc.trans hparentb, hchildrenc.trans hchildrenb⟩
  hangs := by
    intro x hthere hlive
    have hthereb := isSome_get?_of_size_le hab.size hthere
    exact (hbc.hangs hthereb hlive).trans (hab.hangs hthere (hbc.live hthereb hlive))
  hung := by
    intro x hthere
    rcases hbc.hung (isSome_get?_of_size_le hab.size hthere) with hsame | hnone
    · rw [hsame]
      exact hab.hung hthere
    · exact .inr hnone
  lists := by
    intro x hthere
    obtain ⟨keptb, addedb, hb, hsubb, hnewb⟩ := hab.lists hthere
    obtain ⟨keptc, addedc, hc, hsubc, hnewc⟩ :=
      hbc.lists (isSome_get?_of_size_le hab.size hthere)
    -- What the second step keeps is in part old and in part new to the first.
    rw [hb] at hsubc
    obtain ⟨old, new, rfl, hold, hnew⟩ := List.sublist_append_iff.mp hsubc
    refine ⟨old, new ++ addedc, ?_, hold.trans hsubb, fun d hd => ?_⟩
    · rw [hc, List.append_assoc]
    · rcases List.mem_append.mp hd with hd | hd
      · exact hnewb d (hnew.subset hd)
      · exact Nat.le_trans hab.size (hnewc d hd)
  stays := by
    intro x hlive hparent
    have hliveb := hab.stays hlive hparent
    have hparentb := hab.hangs (isSome_get?_of_isLive hlive) hliveb
    exact hbc.stays hliveb (hparentb.trans hparent)

/-- An arena with the same places in all its slots. -/
theorem of_views (hsize : b.size = a.size) (hlive : ∀ x, b.isLive x = a.isLive x)
    (hparent : ∀ x, b.parent? x = a.parent? x)
    (hchildren : ∀ x, b.children x = a.children x) : a.Precedes b where
  size := Nat.le_of_eq hsize.symm
  settled := fun {x} _ hdead => ⟨(hlive x).trans hdead, hparent x, hchildren x⟩
  hangs := fun {x} _ _ => hparent x
  hung := fun {x} _ => .inl (hparent x)
  lists := fun {x} _ =>
    ⟨a.children x, [], by rw [hchildren, List.append_nil], .refl _, by simp⟩
  stays := fun {x} hx _ => (hlive x).trans hx

end Precedes

/-! ## The changes -/

theorem precedes_patch (i : NodeIndex) (f : NodeData → NodeData) (a : Arena) :
    a.Precedes (Edit.patch i f a).2 :=
  .of_views (size_modify a i _) (isLive_modifyData f a i) (parent?_modifyData f a i)
    (children_modifyData f a i)

/-- A new node goes to the end of the list of a live one. -/
theorem precedes_attach {parent : NodeIndex} {data : NodeData} (hroom : a.size < 0xFFFFFFFF)
    (hparent : parent = .none ∨ a.isLive parent = true) :
    a.Precedes (Edit.attach parent data a).2 := by
  have hne := parent_ne_nextIndex hroom hparent
  have hplace : ∀ {x}, (a.get? x).isSome →
      (Edit.attach parent data a).2.isLive x = a.isLive x ∧
        (Edit.attach parent data a).2.parent? x = a.parent? x := by
    intro x hthere
    have hold : x ≠ a.nextIndex := ne_nextIndex hroom hthere
    rw [isLive_attach hroom hne, parent?_attach hroom hne, if_neg hold, beq_false_of_ne hold]
    exact ⟨rfl, rfl⟩
  refine ⟨?_, fun hthere hdead => ⟨?_, ?_, ?_⟩, fun hthere _ => (hplace hthere).2,
    fun hthere => .inl (hplace hthere).2, fun {x} hthere => ?_, fun hlive _ => ?_⟩
  · rw [size_attach]
    omega
  · rw [(hplace hthere).1, hdead]
  · exact (hplace hthere).2
  · -- A removed node is not the one that gets a child.
    rw [children_attach hroom hne, if_neg]
    rintro ⟨rfl, hsome⟩
    rcases hparent with rfl | hlive
    · exact (isSome_get?_iff.mp hthere).1 rfl
    · rw [hdead] at hlive
      cases hlive
  · rw [children_attach hroom hne]
    split
    · refine ⟨a.children x, [a.nextIndex], rfl, .refl _, fun d hd => ?_⟩
      rw [List.mem_singleton.mp hd]
      exact Nat.le_of_eq (toNat_nextIndex hroom).symm
    · exact ⟨a.children x, [], (List.append_nil _).symm, .refl _, by simp⟩
  · rw [(hplace (isSome_get?_of_isLive hlive)).1, hlive]

/-- A removal takes the node out of the list of its parent, and leaves removed
nodes and nodes below none alone. -/
theorem precedes_cut (hlinks : a.WellLinked) (i : NodeIndex) : a.Precedes (a.cut i) := by
  rcases hlive : a.isLive i with _ | _
  · rw [cut_of_not_live hlive]
    exact .refl a
  rcases hp : a.parent? i with _ | p
  · rw [cut_of_parentless hp]
    exact .refl a
  have hparent := parent?_cut hlinks hlive hp
  have hchildren := children_cut hlinks hlive hp
  refine ⟨Nat.le_of_eq (size_cut a i).symm, fun {x} _ hdead => ⟨?_, ?_, ?_⟩, fun {x} _ hx => ?_,
    fun {x} _ => ?_, fun {x} _ => ?_, fun {x} hx hroot => ?_⟩
  · rw [Bool.eq_false_iff]
    intro habs
    rw [((isLive_cut hlinks hlive hp x).mp habs).1] at hdead
    cases hdead
  · rw [hparent, if_neg]
    rintro rfl
    rw [hlive] at hdead
    cases hdead
  · -- The parent of a live node is live.
    rw [hchildren, if_neg]
    rintro rfl
    rw [← hlinks.together hp, hlive] at hdead
    cases hdead
  · rw [hparent, if_neg]
    rintro rfl
    exact ((isLive_cut hlinks hlive hp _).mp hx).2 .self
  · rw [hparent]
    split
    · exact .inr rfl
    · exact .inl rfl
  · refine ⟨(a.cut i).children x, [], (List.append_nil _).symm, ?_, by simp⟩
    rw [hchildren]
    split
    · exact List.erase_sublist
    · exact .refl _
  · refine (isLive_cut hlinks hlive hp x).mpr ⟨hx, fun hw => ?_⟩
    have hne : x ≠ i := by
      rintro rfl
      rw [hp] at hroot
      cases hroot
    obtain ⟨q, hq, -⟩ := hw.exists_parent hne
    rw [hroot] at hq
    cases hq

/-! ## What all changes keep -/

/-- From `a` to `b` no slot is lost, and while there is an index for each slot,
links stay in agreement and nothing else of the past is lost either. -/
def KeepsHistory (a b : Arena) : Prop :=
  a.size ≤ b.size ∧ (b.Fits → a.WellLinked → b.WellLinked ∧ a.Precedes b)

instance : Std.Refl KeepsHistory := ⟨fun a => ⟨Nat.le_refl _, fun _ h => ⟨h, .refl a⟩⟩⟩

instance : IsTrans Arena KeepsHistory where
  trans := by
    rintro a b c ⟨hab, hkeepsab⟩ ⟨hbc, hkeepsbc⟩
    refine ⟨Nat.le_trans hab hbc, fun hfits hlinks => ?_⟩
    obtain ⟨hlinksb, hprecedesb⟩ := hkeepsab (Nat.le_trans hbc hfits) hlinks
    obtain ⟨hlinksc, hprecedesc⟩ := hkeepsbc hfits hlinksb
    exact ⟨hlinksc, hprecedesb.trans hprecedesc⟩

theorem covers_keepsHistory : Edit.Covers KeepsHistory where
  patch := by
    intro i f a
    obtain ⟨hsize, hlinks⟩ := covers_keepsLinks.patch i f a
    exact ⟨hsize, fun hfits h => ⟨hlinks hfits h, precedes_patch i f a⟩⟩
  attach := by
    intro a parent data hparent
    obtain ⟨hsize, hlinks⟩ := covers_keepsLinks.attach data hparent
    exact ⟨hsize, fun hfits h =>
      ⟨hlinks hfits h, precedes_attach (room_of_attach hfits) hparent⟩⟩
  remove := by
    intro i a
    obtain ⟨hsize, hlinks⟩ := covers_keepsLinks.remove i a
    exact ⟨hsize, fun hfits h => ⟨hlinks hfits h, precedes_cut h i⟩⟩

end Arena

end Decompiled
