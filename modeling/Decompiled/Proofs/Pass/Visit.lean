import Decompiled.Proofs.Pass.AssemblyAttributes
import Decompiled.Proofs.Pass.EmbeddedTypes
import Decompiled.Proofs.Pass.EscapeIdentifiers

/-!
# What one visit makes of a tree

A pass works on its tree in visits. What a visit can do is said once, in
`Visit`, for each of the passes: it escapes a name, removes what is doomed in a
section, or drops a helper type with what goes with it. All that holds of the
visits is read off there.

* `SyntaxTree.Rooted`: the trees that the passes can work on.
* `Visit`: what a visit makes of a tree.
* `StandardPass.exists_visit`: a node that a pass is to visit can be visited.
* `Visit.rooted`, `Visit.pending`: the pass can then go on to the others.
-/

namespace Decompiled

open Work

/-- A well-linked tree whose root is a live compilation unit below nothing. -/
structure SyntaxTree.Rooted (tree : SyntaxTree) : Prop where
  links : tree.arena.WellLinked
  root_live : tree.arena.isLive tree.root = true
  root_parentless : tree.arena.parent? tree.root = none
  root_unit : tree.arena.kind? tree.root = some .compilationUnit

variable {tree tree' : SyntaxTree} {b : Arena} {pass : StandardPass} {d i j p q s : NodeIndex}

namespace SyntaxTree.Rooted

/-- Nothing is above the root, and nothing of another kind is the root. -/
theorem not_above_root (h : tree.Rooted) {kind : NodeKind}
    (hkind : tree.arena.kind? d = some kind) (hne : kind ≠ .compilationUnit) :
    ¬ tree.arena.Within d tree.root := by
  intro hw
  rw [← hw.eq_of_parentless h.root_parentless, h.root_unit] at hkind
  exact hne (Option.some.inj hkind).symm

/-- A thinned tree is rooted as long as its root is left. -/
theorem thinned (h : tree.Rooted) (hthins : tree.arena.Thins b)
    (hroot : b.isLive tree.root = true) : ({ tree with arena := b } : SyntaxTree).Rooted where
  links := hthins.links
  root_live := hroot
  root_parentless := (hthins.hangs hroot).trans h.root_parentless
  root_unit := (hthins.kind? tree.root).trans h.root_unit

end SyntaxTree.Rooted

/-! ## The sweeps of the passes -/

/-- The sweep that a pass makes. -/
def StandardPass.sweep : StandardPass → Sweep
  | escapeIdentifiers => EscapeIdentifiers.sweep
  | assemblyAttributes => AssemblyAttributes.sweep
  | embeddedTypes => EmbeddedTypes.sweep

namespace StandardPass

theorem run_eq (pass : StandardPass) : pass.pass.run = pass.sweep.run := by
  cases pass <;> rfl

/-- Of a thinned tree a pass visits what it would have visited and is left. -/
theorem nodes_eq (pass : StandardPass) (hlinks : tree.arena.WellLinked)
    (hthins : tree.arena.Thins b) (hroot : b.isLive tree.root = true) :
    pass.sweep.nodes { tree with arena := b } = (pass.sweep.nodes tree).filter b.isLive := by
  cases pass with
  | escapeIdentifiers => exact hthins.descendantsOfKind_eq hlinks hroot .identifier
  | assemblyAttributes => exact hthins.childrenOfKind_eq hroot .attributeSection
  | embeddedTypes => exact hthins.descendantsOfKind_eq hlinks hroot .typeDeclaration

theorem nodes_nodup (pass : StandardPass) (hlinks : tree.arena.WellLinked) :
    (pass.sweep.nodes tree).Nodup := by
  cases pass with
  | escapeIdentifiers => exact (Arena.nodup_descendantsAndSelf hlinks tree.root).filter _
  | assemblyAttributes => exact (hlinks.nodup tree.root).filter _
  | embeddedTypes => exact (Arena.nodup_descendantsAndSelf hlinks tree.root).filter _

theorem isLive_of_mem_nodes (pass : StandardPass) (hrooted : tree.Rooted)
    (hi : i ∈ pass.sweep.nodes tree) :
    tree.arena.isLive i = true := by
  cases pass with
  | escapeIdentifiers =>
      obtain ⟨hroot, hw, -⟩ := (Arena.mem_descendantsOfKind hrooted.links).mp hi
      rw [hw.isLive_eq hrooted.links, hroot]
  | assemblyAttributes =>
      exact hrooted.links.child_live hrooted.root_live (AssemblyAttributes.mem_nodes.mp hi).1
  | embeddedTypes =>
      obtain ⟨hroot, hw, -⟩ := (Arena.mem_descendantsOfKind hrooted.links).mp hi
      rw [hw.isLive_eq hrooted.links, hroot]

end StandardPass

/-! ## One visit -/

/-- What the visit of a pass to a node makes of a tree. -/
inductive Visit (tree : SyntaxTree) : StandardPass → NodeIndex → SyntaxTree → Prop
  /-- The name of an identifier is escaped. -/
  | name {i : NodeIndex} {b : Arena} : i ∈ EscapeIdentifiers.sweep.nodes tree →
      tree.arena.Escapes [i] b →
      Visit tree .escapeIdentifiers i { tree with arena := b }
  /-- What is doomed in a section is removed. -/
  | attributes {s : NodeIndex} {b : Arena} : s ∈ AssemblyAttributes.sweep.nodes tree →
      tree.arena.Prunes (AssemblyAttributes.DoomedIn tree s) b →
      Visit tree .assemblyAttributes s { tree with arena := b }
  /-- A declaration that is gone, or is no helper type, is passed over. -/
  | skip {i : NodeIndex} :
      (tree.arena.isLive i = true → EmbeddedTypes.isHelper tree i = false) →
      Visit tree .embeddedTypes i tree
  /-- A helper type is removed, alone or with its namespace. -/
  | drop {i p q : NodeIndex} : tree.arena.kind? i = some .typeDeclaration →
      tree.arena.isLive i = true → tree.arena.parent? i = some p →
      tree.arena.parent? (EmbeddedTypes.target tree.arena i) = some q →
      Visit tree .embeddedTypes i
        { tree with arena := tree.arena.cut (EmbeddedTypes.target tree.arena i) }

/-- The nodes that a pass can still visit: those that it would list by now, and
declarations that went with another one. -/
def StandardPass.Pending (pass : StandardPass) (tree : SyntaxTree) (i : NodeIndex) : Prop :=
  i ∈ pass.sweep.nodes tree ∨ (pass = .embeddedTypes ∧ tree.arena.isLive i = false)

/-- What is removed when a section is cleaned is an attribute or the section. -/
theorem AssemblyAttributes.DoomedIn.kind?_cases (h : DoomedIn tree s d)
    (hs : s ∈ sweep.nodes tree) : tree.arena.kind? d = some .attributeUse ∨
      tree.arena.kind? d = some .attributeSection := by
  obtain ⟨-, -, ⟨hd, -⟩ | ⟨rfl, -⟩⟩ := h
  · exact .inl (mem_attributes.mp hd).2
  · exact .inr (mem_nodes.mp hs).2

/-- What goes with a helper type is that type or a namespace. -/
theorem EmbeddedTypes.kind?_target {a : Arena} (hkind : a.kind? i = some .typeDeclaration)
    (hp : a.parent? i = some p) :
    a.kind? (target a i) = some .typeDeclaration ∨
      a.kind? (target a i) = some .namespaceDeclaration := by
  rcases target_cases hp with heq | ⟨heq, hspace⟩
  · rw [heq]
    exact .inl hkind
  · rw [heq]
    exact .inr hspace

theorem EmbeddedTypes.isLive_target {a : Arena} (hlinks : a.WellLinked)
    (hlive : a.isLive i = true) (hp : a.parent? i = some p) : a.isLive (target a i) = true := by
  rw [← (within_target hp).isLive_eq hlinks, hlive]

/-- A visit to a declaration that the pass has listed. -/
theorem EmbeddedTypes.exists_visit (hrooted : tree.Rooted)
    (hpending : StandardPass.embeddedTypes.Pending tree i) :
    ∃ tree', (EmbeddedTypes.visit i).Turns tree tree' ∧ Visit tree .embeddedTypes i tree' := by
  have hparent : tree.arena.isLive i = true → ∃ p, tree.arena.parent? i = some p ∧
      ∃ q, tree.arena.parent? (target tree.arena i) = some q := by
    intro hlive
    rcases hpending with hi | ⟨-, hdead⟩
    · exact parent_of_target hrooted.links hrooted.root_unit (.refl hrooted.links) hi hlive
    · rw [hlive] at hdead
      cases hdead
  have hturns := turns_visit hrooted.links fun hlive _ => hparent hlive
  refine ⟨_, hturns, ?_⟩
  rcases hlive : tree.arena.isLive i with _ | _
  · rw [dropAt_of_not_live hlive]
    exact .skip fun habs => by rw [hlive] at habs; cases habs
  rcases hhelper : isHelper tree i with _ | _
  · rw [dropAt_of_not_helper hhelper]
    exact .skip fun _ => hhelper
  · rw [dropAt_of_helper hlive hhelper]
    obtain ⟨p, hp, q, hq⟩ := hparent hlive
    have hkind : tree.arena.kind? i = some .typeDeclaration := by
      rcases hpending with hi | ⟨-, hdead⟩
      · exact ((Arena.mem_descendantsOfKind hrooted.links).mp hi).2.2
      · rw [hlive] at hdead
        cases hdead
    exact .drop hkind hlive hp hq

/-- What a pass can still visit, it visits with success. -/
theorem StandardPass.exists_visit (hrooted : tree.Rooted) (hpending : pass.Pending tree i) :
    ∃ tree', (pass.sweep.visit i).Turns tree tree' ∧ Visit tree pass i tree' := by
  cases pass with
  | escapeIdentifiers =>
      rcases hpending with hi | ⟨habs, -⟩
      · have hlive := escapeIdentifiers.isLive_of_mem_nodes hrooted hi
        have hescapes := (Arena.Escapes.refl tree.arena).escapeAt hlive
        exact ⟨_, EscapeIdentifiers.turns_visit hlive, .name hi hescapes⟩
      · cases habs
  | assemblyAttributes =>
      rcases hpending with hs | ⟨habs, -⟩
      · obtain ⟨b, hturns, hb⟩ := AssemblyAttributes.turns_visit hrooted.links hs
          (fun _ habs => habs.elim) hrooted.root_live (.refl hrooted.links)
        exact ⟨_, hturns, .attributes hs (hb.congr fun d => by rw [false_or])⟩
      · cases habs
  | embeddedTypes => exact EmbeddedTypes.exists_visit hrooted hpending

/-- What is doomed in a section is gone when it has been cleaned. -/
theorem Visit.gone_of_doomed (h : Visit tree .assemblyAttributes s tree')
    (hd : AssemblyAttributes.DoomedIn tree s d) : tree'.arena.isLive d = false := by
  cases h with
  | attributes hs hprunes =>
      rw [Bool.eq_false_iff]
      intro hlive
      exact ((hprunes.live_iff d).mp hlive).2 d hd .self

namespace Visit

variable (h : Visit tree pass i tree') (hrooted : tree.Rooted)

include h

/-- A visit changes the arena alone. -/
theorem eq_arena : tree' = { tree with arena := tree'.arena } := by
  cases h <;> rfl

include hrooted

/-- It thins the arena. -/
theorem thins : tree.arena.Thins tree'.arena := by
  cases h with
  | name hi hescapes => exact hescapes.thins hrooted.links
  | attributes hs hprunes => exact hprunes.thins
  | skip hother => exact .refl hrooted.links
  | drop hkind hlive hp hq => exact Arena.thins_cut hrooted.links _

/-- The root is left. -/
theorem root_live : tree'.arena.isLive tree.root = true := by
  cases h with
  | name hi hescapes => exact (hescapes.live tree.root).trans hrooted.root_live
  | attributes hs hprunes =>
      have hparent := hrooted.links.listed_iff.mp (AssemblyAttributes.mem_nodes.mp hs).1
      refine hprunes.isLive_of_apart hrooted.root_live fun d hd hw => ?_
      exact hrooted.links.not_within_parent hparent ((hd.within hrooted.links).trans hw)
  | skip hother => exact hrooted.root_live
  | drop hkind hlive hp hq =>
      have htarget := EmbeddedTypes.isLive_target hrooted.links hlive hp
      refine (Arena.isLive_cut hrooted.links htarget hq tree.root).mpr
        ⟨hrooted.root_live, ?_⟩
      rcases EmbeddedTypes.kind?_target hkind hp with htype | hspace
      · exact hrooted.not_above_root htype (by decide)
      · exact hrooted.not_above_root hspace (by decide)

theorem rooted : tree'.Rooted := by
  rw [h.eq_arena]
  exact hrooted.thinned (h.thins hrooted) (h.root_live hrooted)

/-- What a pass lists afterwards is what it would have listed before and is
left. -/
theorem nodes_eq (other : StandardPass) :
    other.sweep.nodes tree' = (other.sweep.nodes tree).filter tree'.arena.isLive := by
  rw [h.eq_arena]
  exact other.nodes_eq hrooted.links (h.thins hrooted) (h.root_live hrooted)

/-- Only a visit to a declaration makes other nodes of its list go. -/
theorem isLive_of_ne (hpass : pass ≠ .embeddedTypes) (hj : j ∈ pass.sweep.nodes tree)
    (hne : j ≠ i) : tree'.arena.isLive j = true := by
  have hjlive := pass.isLive_of_mem_nodes hrooted hj
  cases h with
  | name hi hescapes => exact (hescapes.live j).trans hjlive
  | attributes hs hprunes =>
      have hsparent := hrooted.links.listed_iff.mp (AssemblyAttributes.mem_nodes.mp hs).1
      have hjparent := hrooted.links.listed_iff.mp (AssemblyAttributes.mem_nodes.mp hj).1
      refine hprunes.isLive_of_apart hjlive fun d hd hw => ?_
      have hsj := (hd.within hrooted.links).trans hw
      exact hrooted.links.siblings_apart hsparent hjparent hne.symm hsj .self
  | skip hother => exact absurd rfl hpass
  | drop hkind hlive hp hq => exact absurd rfl hpass

/-- The other nodes of its list can still be visited. -/
theorem pending (hne : j ≠ i) (hj : pass.Pending tree j) : pass.Pending tree' j := by
  rcases hj with hj | ⟨hpass, hdead⟩
  · rcases hlive : tree'.arena.isLive j with _ | _
    · by_cases hpass : pass = .embeddedTypes
      · exact .inr ⟨hpass, hlive⟩
      · rw [h.isLive_of_ne hrooted hpass hj hne] at hlive
        cases hlive
    · left
      rw [h.nodes_eq hrooted, List.mem_filter]
      exact ⟨hj, hlive⟩
  · exact .inr ⟨hpass, (h.thins hrooted).gone hdead⟩

/-- Nothing is done at a node that is gone. -/
theorem eq_of_not_live (hdead : tree.arena.isLive i = false) : tree' = tree := by
  have hnot : tree.arena.isLive i ≠ true := by
    rw [hdead]
    exact Bool.false_ne_true
  cases h with
  | name hi hescapes =>
      exact absurd (StandardPass.escapeIdentifiers.isLive_of_mem_nodes hrooted hi) hnot
  | attributes hs hprunes =>
      exact absurd (StandardPass.assemblyAttributes.isLive_of_mem_nodes hrooted hs) hnot
  | skip hother => rfl
  | drop hkind hlive hp hq => exact absurd hlive hnot

/-- A child that goes while its parent is left is doomed in the section that is
cleaned, or it is what goes with the helper type. -/
theorem child_gone (hp : tree.arena.parent? d = some p) (hlive : tree'.arena.isLive p = true)
    (hgone : tree'.arena.isLive d = false) :
    (pass = .assemblyAttributes ∧ i ∈ AssemblyAttributes.sweep.nodes tree ∧
      AssemblyAttributes.DoomedIn tree i d) ∨
    (d = EmbeddedTypes.target tree.arena i ∧
      (tree.arena.kind? d = some .typeDeclaration ∨
        tree.arena.kind? d = some .namespaceDeclaration)) := by
  have hnot : tree'.arena.isLive d ≠ true := by
    rw [hgone]
    exact Bool.false_ne_true
  have htogether := hrooted.links.together hp
  cases h with
  | name hi hescapes =>
      refine absurd ((hescapes.live d).trans ?_) hnot
      rw [htogether, ← hescapes.live]
      exact hlive
  | attributes hs hprunes =>
      by_cases hdoomed : AssemblyAttributes.DoomedIn tree i d
      · exact .inl ⟨rfl, hs, hdoomed⟩
      · exact absurd (hprunes.child_live hrooted.links hlive hp hdoomed) hnot
  | skip hother => exact absurd (htogether.trans hlive) hnot
  | drop hkind hilive hparent hq =>
      have htarget := EmbeddedTypes.isLive_target hrooted.links hilive hparent
      have hprunes := (Arena.Prunes.refl hrooted.links).cut htarget hq
      by_cases heq : d = EmbeddedTypes.target tree.arena i
      · refine .inr ⟨heq, ?_⟩
        rw [heq]
        exact EmbeddedTypes.kind?_target hkind hparent
      · have hkept : ¬ (False ∨ d = EmbeddedTypes.target tree.arena i) := not_or.mpr ⟨id, heq⟩
        exact absurd (hprunes.child_live hrooted.links hlive hp hkept) hnot

/-- An attribute goes from a section that is left only if it is that section
that is cleaned and the rule for it holds of the attribute. -/
theorem attribute_gone (hs : tree'.arena.isLive s = true) (hd : d ∈ tree.arena.attributes s)
    (hgone : tree'.arena.isLive d = false) :
    pass = .assemblyAttributes ∧ i = s ∧
      ∃ rule, AssemblyAttributes.ruleFor? tree s = some rule ∧ rule tree d = true := by
  have hlinks := hrooted.links
  obtain ⟨hchild, hkind⟩ := AssemblyAttributes.mem_attributes.mp hd
  rcases h.child_gone hrooted (hlinks.listed_iff.mp hchild) hs hgone with
    ⟨hpass, hi, rule, hrule, ⟨hmem, hmatch⟩ | ⟨rfl, -⟩⟩ | ⟨-, hdrop⟩
  · have heq : i = s :=
      hlinks.parent_unique (AssemblyAttributes.mem_attributes.mp hmem).1 hchild
    exact ⟨hpass, heq, rule, heq ▸ hrule, hmatch⟩
  · rw [(AssemblyAttributes.mem_nodes.mp hi).2] at hkind
    cases hkind
  · rw [hkind] at hdrop
    rcases hdrop with habs | habs <;> cases habs

end Visit

end Decompiled
