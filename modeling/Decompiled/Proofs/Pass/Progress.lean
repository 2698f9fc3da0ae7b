import Decompiled.Proofs.Pass.Visit

/-!
# What passes make of a tree together

What is left after some passes of a pipeline is told from the tree before the
first of them and from which passes have been run: what each of them would
remove from that tree is gone, and names are escaped if they have been. The
passes do not get in each other's way, since none removes what another one
looks at without removing all that it would do there.

* `SyntaxTree.Regular`: the trees that this is about.
* `Progress`: what is left after a set of passes.
* `Progress.assembly`, `Progress.embedded`, `Progress.escape`: one more pass.
-/

namespace Decompiled

open Work

/-- A well-linked tree whose root is a live compilation unit below nothing, in
which an attribute has no children but a reference to its type and arguments. -/
structure SyntaxTree.Regular (tree : SyntaxTree) : Prop where
  links : tree.arena.WellLinked
  root_live : tree.arena.isLive tree.root = true
  root_parentless : tree.arena.parent? tree.root = none
  root_unit : tree.arena.kind? tree.root = some .compilationUnit
  attribute_child : ∀ {i c}, tree.arena.kind? i = some .attributeUse →
    c ∈ tree.arena.children i →
      tree.arena.kind? c = some .typeReference ∨ tree.arena.kind? c = some .argument

/-- A node is in a subtree that removing attributes from the tree removes. -/
def Swept (tree : SyntaxTree) (x : NodeIndex) : Prop :=
  ∃ d, AssemblyAttributes.Doomed tree d ∧ tree.arena.Within d x

/-- `b` is what is left of the arena of a tree after some passes. -/
structure Progress (tree : SyntaxTree) (done : List StandardPass) (b : Arena) : Prop where
  thins : tree.arena.Thins b
  live_iff : ∀ x, b.isLive x = true ↔ tree.arena.isLive x = true ∧
    (.assemblyAttributes ∈ done → ¬ Swept tree x) ∧
    (.embeddedTypes ∈ done → (EmbeddedTypes.dropAll tree).isLive x = true)
  escaped : .escapeIdentifiers ∈ done → ∀ x, b.isLive x = true → tree.arena.Within tree.root x →
    b.data? x = (tree.arena.data? x).map NodeData.escaped
  carries : ∀ x, b.isLive x = true →
    ¬ (.escapeIdentifiers ∈ done ∧ tree.arena.Within tree.root x) →
      b.data? x = tree.arena.data? x

variable {tree : SyntaxTree} {b : Arena} {done : List StandardPass} {c d i p s x : NodeIndex}

/-! ## The regions that passes remove -/

namespace SyntaxTree.Regular

theorem rooted (h : tree.Regular) : tree.Rooted :=
  ⟨h.links, h.root_live, h.root_parentless, h.root_unit⟩

/-- What removing attributes removes is an attribute in a section, or a section
directly below the root. -/
theorem doomed_cases (h : tree.Regular) (hd : AssemblyAttributes.Doomed tree d) :
    (tree.arena.kind? d = some .attributeUse ∧
      ∃ s, tree.arena.parent? d = some s ∧ tree.arena.kind? s = some .attributeSection) ∨
    (tree.arena.kind? d = some .attributeSection ∧
      tree.arena.parent? d = some tree.root) := by
  obtain ⟨s, hs, rule, -, ⟨hmem, -⟩ | ⟨rfl, -⟩⟩ := hd
  · obtain ⟨hchild, hkind⟩ := AssemblyAttributes.mem_attributes.mp hmem
    exact .inl ⟨hkind, s, h.links.listed_iff.mp hchild, (AssemblyAttributes.mem_nodes.mp hs).2⟩
  · obtain ⟨hchild, hkind⟩ := AssemblyAttributes.mem_nodes.mp hs
    exact .inr ⟨hkind, h.links.listed_iff.mp hchild⟩

/-- Where the region begins, a node is removed for itself. -/
theorem doomed_of_swept (hx : Swept tree c) (hp : tree.arena.parent? c = some p)
    (hkept : ¬ Swept tree p) : AssemblyAttributes.Doomed tree c := by
  obtain ⟨d, hd, hw⟩ := hx
  by_cases heq : c = d
  · exact heq ▸ hd
  · exact absurd ⟨d, hd, hw.up heq hp⟩ hkept

theorem root_not_swept (h : tree.Regular) : ¬ Swept tree tree.root := by
  rintro ⟨d, hd, hw⟩
  rcases h.doomed_cases hd with ⟨hkind, -⟩ | ⟨hkind, -⟩
  · exact h.rooted.not_above_root hkind (by decide) hw
  · exact h.rooted.not_above_root hkind (by decide) hw

/-- The region is not cut out of a namespace, nor does it begin with a type. -/
theorem swept_boundary (h : tree.Regular) (hp : tree.arena.parent? c = some p)
    (hx : Swept tree c) (hkept : ¬ Swept tree p) :
    tree.arena.kind? c ≠ some .typeDeclaration ∧
      tree.arena.kind? p ≠ some .namespaceDeclaration := by
  rcases h.doomed_cases (doomed_of_swept hx hp hkept) with ⟨hkind, s, hs, hskind⟩ | ⟨hkind, hs⟩
  · rw [hp] at hs
    cases hs
    rw [hkind, hskind]
    decide
  · rw [hp] at hs
    cases hs
    rw [hkind, h.root_unit]
    decide

/-- Removing types leaves each child that is no type and no namespace. -/
theorem dropAll_child (h : tree.Regular) {kind : NodeKind}
    (hlive : (EmbeddedTypes.dropAll tree).isLive p = true)
    (hp : tree.arena.parent? c = some p) (hkind : tree.arena.kind? c = some kind)
    (htype : kind ≠ .typeDeclaration) (hspace : kind ≠ .namespaceDeclaration) :
    (EmbeddedTypes.dropAll tree).isLive c = true := by
  obtain ⟨tops, hprunes, hkinds⟩ := (EmbeddedTypes.turns_sweep h.links h.root_unit).2.prunes
  refine hprunes.child_live h.links hlive hp fun habs => ?_
  rcases hkinds c habs with hother | hother
  · rw [hkind] at hother
    exact htype (Option.some.inj hother)
  · rw [hkind] at hother
    exact hspace (Option.some.inj hother)

theorem dropAll_root (h : tree.Regular) :
    (EmbeddedTypes.dropAll tree).isLive tree.root = true := by
  obtain ⟨tops, hprunes, hkinds⟩ := (EmbeddedTypes.turns_sweep h.links h.root_unit).2.prunes
  refine hprunes.isLive_of_apart h.root_live fun d hd => ?_
  rcases hkinds d hd with hkind | hkind
  · exact h.rooted.not_above_root hkind (by decide)
  · exact h.rooted.not_above_root hkind (by decide)

end SyntaxTree.Regular

namespace Progress

theorem start (h : tree.Regular) : Progress tree [] tree.arena where
  thins := .refl h.links
  live_iff := by simp
  escaped := fun habs => nomatch habs
  carries := fun _ _ _ => rfl

theorem root_live (h : Progress tree done b) (hregular : tree.Regular) :
    b.isLive tree.root = true :=
  (h.live_iff tree.root).mpr
    ⟨hregular.root_live, fun _ => hregular.root_not_swept, fun _ => hregular.dropAll_root⟩

/-- Only removing the attribute itself can make a child of it go. -/
theorem attribute_child_live (h : Progress tree done b) (hregular : tree.Regular)
    (hlive : b.isLive i = true) (hkind : tree.arena.kind? i = some .attributeUse)
    (hc : c ∈ tree.arena.children i) : b.isLive c = true := by
  obtain ⟨hi, hswept, hdropped⟩ := (h.live_iff i).mp hlive
  have hp := hregular.links.listed_iff.mp hc
  have hckind := hregular.attribute_child hkind hc
  refine (h.live_iff c).mpr
    ⟨hregular.links.child_live hi hc, fun hdone hcs => ?_, fun hdone => ?_⟩
  · -- The child would be doomed itself, which is neither a reference nor an argument.
    have hdoomed := SyntaxTree.Regular.doomed_of_swept hcs hp (hswept hdone)
    rcases hregular.doomed_cases hdoomed with ⟨hother, -⟩ | ⟨hother, -⟩ <;>
      rcases hckind with hckind | hckind <;> rw [hckind] at hother <;> cases hother
  · rcases hckind with hckind | hckind
    · exact hregular.dropAll_child (hdropped hdone) hp hckind (by decide) (by decide)
    · exact hregular.dropAll_child (hdropped hdone) hp hckind (by decide) (by decide)

/-- A pass that removes nodes and changes nothing else. -/
theorem removal (h : Progress tree done b) {b' : Arena} {pass : StandardPass}
    (hother : pass ≠ .escapeIdentifiers) (hthins : b.Thins b')
    (hdata : ∀ x, b'.data? x = b.data? x)
    (hlive : ∀ x, b'.isLive x = true ↔ tree.arena.isLive x = true ∧
      (.assemblyAttributes ∈ done ++ [pass] → ¬ Swept tree x) ∧
      (.embeddedTypes ∈ done ++ [pass] → (EmbeddedTypes.dropAll tree).isLive x = true)) :
    Progress tree (done ++ [pass]) b' := by
  have hmem : StandardPass.escapeIdentifiers ∈ done ++ [pass] ↔
      StandardPass.escapeIdentifiers ∈ done := by
    rw [List.mem_append, List.mem_singleton]
    exact or_iff_left hother.symm
  refine ⟨h.thins.trans hthins, hlive, fun hdone x hx hw => ?_, fun x hx hnot => ?_⟩
  · rw [hdata]
    exact h.escaped (hmem.mp hdone) x (hthins.live hx) hw
  · rw [hdata]
    rw [hmem] at hnot
    exact h.carries x (hthins.live hx) hnot

/-! ## Removing attributes -/

section Assembly

open AssemblyAttributes

variable (h : Progress tree done b) (hregular : tree.Regular)

include h hregular

theorem rule_eq {target : AttributeTarget} {rule : SyntaxTree → NodeIndex → Bool}
    (hrule : rule? target = some rule) (hlive : b.isLive i = true)
    (hkind : tree.arena.kind? i = some .attributeUse) :
    rule { tree with arena := b } i = rule tree i :=
  AssemblyAttributes.rule_eq h.thins hlive
    (fun _ hc => h.attribute_child_live hregular hlive hkind hc) hregular.links hrule

/-- An attribute that is gone from a section that is still there is one that
the rule of the section holds of. -/
theorem rule_of_gone {rule : SyntaxTree → NodeIndex → Bool} (hrule : ruleFor? tree s = some rule)
    (hs : b.isLive s = true) (hi : i ∈ tree.arena.attributes s) (hgone : b.isLive i = false) :
    rule tree i = true := by
  obtain ⟨hchild, hkind⟩ := mem_attributes.mp hi
  have hp := hregular.links.listed_iff.mp hchild
  obtain ⟨hsa, hswept, hdropped⟩ := (h.live_iff s).mp hs
  rcases hmatch : rule tree i with _ | _
  · -- Otherwise nothing has removed the attribute.
    have hkept : b.isLive i = true := by
      refine (h.live_iff i).mpr ⟨hregular.links.child_live hsa hchild, fun hdone his => ?_,
        fun hdone => hregular.dropAll_child (hdropped hdone) hp hkind (by decide) (by decide)⟩
      obtain ⟨other, hother, hd⟩ := SyntaxTree.Regular.doomed_of_swept his hp (hswept hdone)
      -- It is a doomed attribute of the section that it hangs in, and no section.
      rcases hd with ⟨found, hfound, ⟨hmem, hholds⟩ | ⟨rfl, -⟩⟩
      · have heq : other = s :=
          hregular.links.parent_unique (mem_attributes.mp hmem).1 hchild
        rw [heq, hrule] at hfound
        cases hfound
        rw [hmatch] at hholds
        cases hholds
      · rw [(mem_nodes.mp hother).2] at hkind
        cases hkind
    rw [hkept] at hgone
    cases hgone
  · rfl

/-- What is still there and would have been removed from a section at first
would be removed now, and nothing else would. -/
theorem doomedIn_iff (hs : b.isLive s = true) (hd : b.isLive d = true) :
    DoomedIn { tree with arena := b } s d ↔ DoomedIn tree s d := by
  have hsame : ruleFor? { tree with arena := b } s = ruleFor? tree s := by
    show (b.attributeTarget? s).bind rule? = _
    rw [h.thins.attributeTarget?]
    rfl
  have hmem : ∀ {j}, j ∈ b.attributes s ↔ j ∈ tree.arena.attributes s ∧ b.isLive j = true := by
    intro j
    show j ∈ b.childrenOfKind s .attributeUse ↔ _
    rw [h.thins.childrenOfKind_eq hs, List.mem_filter]
    rfl
  rcases hrule : ruleFor? tree s with _ | rule
  · rw [hrule] at hsame
    exact iff_of_false (not_doomedIn hsame) (not_doomedIn hrule)
  obtain ⟨target, -, htarget⟩ := Option.bind_eq_some_iff.mp hrule
  -- Each rule says of an attribute that is left what it said at first.
  have heq : ∀ {j}, j ∈ tree.arena.attributes s → b.isLive j = true →
      rule { tree with arena := b } j = rule tree j :=
    fun hj hlive => h.rule_eq hregular htarget hlive (mem_attributes.mp hj).2
  rw [AssemblyAttributes.doomedIn_iff (hsame.trans hrule), AssemblyAttributes.doomedIn_iff hrule]
  have hmarker : d ∈ b.attributes s ∧ rule { tree with arena := b } d = true ↔
      d ∈ tree.arena.attributes s ∧ rule tree d = true := by
    rw [hmem]
    constructor
    · rintro ⟨⟨hda, -⟩, hmatch⟩
      exact ⟨hda, heq hda hd ▸ hmatch⟩
    · rintro ⟨hda, hmatch⟩
      exact ⟨⟨hda, hd⟩, (heq hda hd).trans hmatch⟩
  have hwhole : (∀ j ∈ b.attributes s, rule { tree with arena := b } j = true) ↔
      ∀ j ∈ tree.arena.attributes s, rule tree j = true := by
    constructor
    · intro hall j hj
      rcases hlive : b.isLive j with _ | _
      · exact h.rule_of_gone hregular hrule hs hj hlive
      · exact heq hj hlive ▸ hall j (hmem.mpr ⟨hj, hlive⟩)
    · intro hall j hj
      obtain ⟨hja, hlive⟩ := hmem.mp hj
      exact (heq hja hlive).trans (hall j hja)
  exact or_congr hmarker (and_congr_right fun _ => hwhole)

theorem doomed_iff (hd : b.isLive d = true) :
    Doomed { tree with arena := b } d ↔ Doomed tree d := by
  have hnodes : ∀ {s}, s ∈ sweep.nodes { tree with arena := b } ↔
      s ∈ sweep.nodes tree ∧ b.isLive s = true := by
    intro s
    show s ∈ b.childrenOfKind tree.root .attributeSection ↔ _
    rw [h.thins.childrenOfKind_eq (h.root_live hregular), List.mem_filter]
    rfl
  unfold Doomed
  constructor
  · rintro ⟨s, hs, hds⟩
    obtain ⟨hsa, hlive⟩ := hnodes.mp hs
    exact ⟨s, hsa, (h.doomedIn_iff hregular hlive hd).mp hds⟩
  · rintro ⟨s, hs, hds⟩
    -- The section of a node that is left is left.
    have hwithin := (h.thins.within_iff hd).mpr (hds.within hregular.links)
    have hlive : b.isLive s = true := by rw [← hwithin.isLive_eq h.thins.links, hd]
    exact ⟨s, hnodes.mpr ⟨hs, hlive⟩, (h.doomedIn_iff hregular hlive hd).mpr hds⟩

theorem swept_iff (hx : b.isLive x = true) :
    (∃ d, Doomed { tree with arena := b } d ∧ b.Within d x) ↔ Swept tree x := by
  refine exists_congr fun d => ?_
  rw [h.thins.within_iff hx]
  refine and_congr_left fun hw => h.doomed_iff hregular ?_
  have hwithin := (h.thins.within_iff hx).mpr hw
  rw [← hwithin.isLive_eq h.thins.links, hx]

/-- Removing attributes now removes what it would have removed at first. -/
theorem assembly : ∃ b', pass.run.Turns { tree with arena := b } { tree with arena := b' } ∧
    Progress tree (done ++ [.assemblyAttributes]) b' := by
  obtain ⟨b', hturns, hprunes⟩ : ∃ b',
      pass.run.Turns { tree with arena := b } { tree with arena := b' } ∧
        b.Prunes (Doomed { tree with arena := b }) b' :=
    turns_sweep h.thins.links (h.root_live hregular)
  refine ⟨b', hturns, h.removal (by decide) hprunes.thins hprunes.carries fun x => ?_⟩
  have hmem : StandardPass.embeddedTypes ∈ done ++ [.assemblyAttributes] ↔
      StandardPass.embeddedTypes ∈ done := by simp
  have hlast : StandardPass.assemblyAttributes ∈ done ++ [.assemblyAttributes] := by simp
  rw [hprunes.live_iff, hmem]
  constructor
  · rintro ⟨hx, hapart⟩
    obtain ⟨hxa, -, hdropped⟩ := (h.live_iff x).mp hx
    refine ⟨hxa, fun _ hswept => ?_, hdropped⟩
    obtain ⟨d, hd, hw⟩ := (h.swept_iff hregular hx).mpr hswept
    exact hapart d hd hw
  · rintro ⟨hxa, hswept, hdropped⟩
    have hx := (h.live_iff x).mpr ⟨hxa, fun _ => hswept hlast, hdropped⟩
    exact ⟨hx, fun d hd hw => hswept hlast ((h.swept_iff hregular hx).mp ⟨d, hd, hw⟩)⟩

end Assembly

/-! ## Removing embedded types -/

section Embedded

open EmbeddedTypes

variable (h : Progress tree done b) (hregular : tree.Regular)

include h hregular

/-- What removing embedded types leaves now. -/
theorem dropAll_live_iff (x : NodeIndex) :
    (dropAll { tree with arena := b }).isLive x = true ↔
      b.isLive x = true ∧ (dropAll tree).isLive x = true := by
  by_cases hdone : StandardPass.embeddedTypes ∈ done
  · -- There is nothing left to remove.
    have hclean : dropAll { tree with arena := b } = b :=
      dropAll_of_clean hregular.links hregular.root_unit h.thins fun x hx =>
        ((h.live_iff x).mp hx).2.2 hdone
    rw [hclean]
    exact ⟨fun hx => ⟨hx, ((h.live_iff x).mp hx).2.2 hdone⟩, And.left⟩
  · -- What is gone by now went with the attributes.
    have hlive : ∀ x, b.isLive x = true ↔ tree.arena.isLive x = true ∧
        ¬ (.assemblyAttributes ∈ done ∧ Swept tree x) := by
      intro x
      rw [h.live_iff]
      simp [hdone]
    have hboundary : ∀ {c p}, tree.arena.parent? c = some p → tree.arena.isLive c = true →
        (.assemblyAttributes ∈ done ∧ Swept tree c) →
        ¬ (.assemblyAttributes ∈ done ∧ Swept tree p) →
        tree.arena.kind? c ≠ some .typeDeclaration ∧
          tree.arena.kind? p ≠ some .namespaceDeclaration :=
      fun hp _ hc hkept => hregular.swept_boundary hp hc.2 fun hps => hkept ⟨hc.1, hps⟩
    have hbeside := beside_dropAll hregular.links hregular.root_unit hboundary h.thins
      (h.root_live hregular) hlive
    have hthins : tree.arena.Thins (dropAll tree) := hbeside.whole
    rw [hbeside.live_iff, hlive]
    constructor
    · rintro ⟨hx, hkept⟩
      exact ⟨⟨hthins.live hx, hkept⟩, hx⟩
    · rintro ⟨⟨-, hkept⟩, hx⟩
      exact ⟨hx, hkept⟩

/-- Removing embedded types now removes what it would have removed at first. -/
theorem embedded : ∃ b', pass.run.Turns { tree with arena := b } { tree with arena := b' } ∧
    Progress tree (done ++ [.embeddedTypes]) b' := by
  have hunit : b.kind? tree.root = some .compilationUnit :=
    (h.thins.kind? tree.root).trans hregular.root_unit
  obtain ⟨hturns, hdropped⟩ : pass.run.Turns { tree with arena := b }
      { tree with arena := dropAll { tree with arena := b } } ∧ _ :=
    turns_sweep h.thins.links hunit
  obtain ⟨tops, hprunes, -⟩ := hdropped.prunes
  refine ⟨_, hturns, h.removal (by decide) hprunes.thins hprunes.carries fun x => ?_⟩
  have hmem : StandardPass.assemblyAttributes ∈ done ++ [.embeddedTypes] ↔
      StandardPass.assemblyAttributes ∈ done := by simp
  have hlast : StandardPass.embeddedTypes ∈ done ++ [.embeddedTypes] := by simp
  rw [h.dropAll_live_iff hregular, h.live_iff, hmem]
  constructor
  · rintro ⟨⟨hx, hswept, -⟩, hdropped⟩
    exact ⟨hx, hswept, fun _ => hdropped⟩
  · rintro ⟨hx, hswept, hdropped⟩
    exact ⟨⟨hx, hswept, fun _ => hdropped hlast⟩, hdropped hlast⟩

end Embedded

/-! ## Escaping identifiers -/

/-- Escaping names now escapes those that it would have escaped at first and
that are still there, and once more. -/
theorem escape (h : Progress tree done b) :
    ∃ b', EscapeIdentifiers.pass.run.Turns { tree with arena := b } { tree with arena := b' } ∧
      Progress tree (done ++ [.escapeIdentifiers]) b' := by
  obtain ⟨b', hturns, hescapes⟩ : ∃ b',
      EscapeIdentifiers.pass.run.Turns { tree with arena := b } { tree with arena := b' } ∧
        b.Escapes (b.descendantsOfKind tree.root .identifier) b' :=
    EscapeIdentifiers.turns_sweep h.thins.links
  have hthins := hescapes.thins h.thins.links
  have hlast : StandardPass.escapeIdentifiers ∈ done ++ [.escapeIdentifiers] := by simp
  refine ⟨b', hturns, h.thins.trans hthins, fun x => ?_, fun _ x hx hw => ?_,
    fun x hx hnot => ?_⟩
  · rw [hescapes.live, h.live_iff]
    simp
  · have hxb := hthins.live hx
    rw [hescapes.data?_of_within h.thins.links hxb ((h.thins.within_iff hxb).mpr hw)]
    -- A name that was escaped before is left alone this time.
    by_cases hdone : StandardPass.escapeIdentifiers ∈ done
    · rw [h.escaped hdone x hxb hw, NodeData.map_escaped_escaped]
    · rw [h.carries x hxb fun hboth => hdone hboth.1]
  · have hxb := hthins.live hx
    have hout : ¬ tree.arena.Within tree.root x := fun hw => hnot ⟨hlast, hw⟩
    rw [hescapes.data?_of_not_within h.thins.links
      fun hw => hout ((h.thins.within_iff hxb).mp hw)]
    exact h.carries x hxb fun hboth => hout hboth.2

/-- Each pass of this library succeeds and makes progress. -/
theorem pass (h : Progress tree done b) (hregular : tree.Regular) (pass : StandardPass) :
    ∃ b', pass.pass.run.Turns { tree with arena := b } { tree with arena := b' } ∧
      Progress tree (done ++ [pass]) b' := by
  cases pass with
  | escapeIdentifiers => exact h.escape
  | assemblyAttributes => exact h.assembly hregular
  | embeddedTypes => exact h.embedded hregular

end Progress

end Decompiled
