import Decompiled.Proofs.Pass.Progress
import Decompiled.Proofs.Pass.Tour
import Decompiled.Proofs.Run.Yields

/-!
# What passes leave alone

A pass that looks again at a node it has visited finds nothing to do there, and
no later visit of any pass gives it anything to do there. So what a pass has
settled stays settled, whatever other passes do in between.

* `StandardPass.Rests`: a pass finds nothing to do at a node.
* `Visit.rests`: that is so of the node it has just visited.
* `Visit.keeps_rests`: and it stays so when any node is visited by any pass.
* `Tour.settled`, `Visits.keeps_settled`: the same of all that a pass lists.
-/

namespace Decompiled

open Work Attempt

variable {tree tree' : SyntaxTree} {pass other : StandardPass} {i j s : NodeIndex}
  {nodes : List NodeIndex} {run : Run}

/-- A pass finds nothing to do at a node: its name can be written, it is a
section with attributes of which none is to go, or it is no helper type. -/
def StandardPass.Rests (pass : StandardPass) (tree : SyntaxTree) (i : NodeIndex) : Prop :=
  match pass with
  | escapeIdentifiers => (tree.arena.identifierName? i).bind Identifier.escape? = none
  | assemblyAttributes => ∀ rule, AssemblyAttributes.ruleFor? tree i = some rule →
      tree.arena.attributes i ≠ [] ∧ ∀ j ∈ tree.arena.attributes i, rule tree j = false
  | embeddedTypes => EmbeddedTypes.isHelper tree i = false

/-- A pass finds nothing to do at any node that it lists. -/
def StandardPass.Settled (pass : StandardPass) (tree : SyntaxTree) : Prop :=
  ∀ i ∈ pass.sweep.nodes tree, pass.Rests tree i

/-! ## Visits to nodes at rest -/

/-- No attribute goes that the rule does not hold of. -/
theorem AssemblyAttributes.removeMatching_of_none {rule : SyntaxTree → NodeIndex → Bool}
    {indices : List NodeIndex} (hnone : ∀ i ∈ indices, rule run.tree i = false) :
    AssemblyAttributes.removeMatching rule indices run = (.ok (), run) := by
  induction indices with
  | nil => rfl
  | cons i rest ih =>
      rw [AssemblyAttributes.removeMatching_cons, hnone i List.mem_cons_self,
        if_neg Bool.false_ne_true]
      exact ih fun j hj => hnone j (List.mem_cons_of_mem i hj)

/-- A visit to a node at rest does nothing at all. -/
theorem StandardPass.visit_of_rests (h : pass.Rests run.tree i) :
    pass.sweep.visit i run = (.ok 0, run) := by
  cases pass with
  | escapeIdentifiers =>
      rcases EscapeIdentifiers.visit_cases i run with
        hskip | ⟨before, after, hname, hafter, -⟩
      · exact hskip
      · replace h : (run.tree.arena.identifierName? i).bind Identifier.escape? = none := h
        rw [hname, Option.bind_some, hafter] at h
        cases h
  | assemblyAttributes =>
      show AssemblyAttributes.visit i run = _
      rw [AssemblyAttributes.visit_apply]
      rcases hrule : (run.tree.arena.attributeTarget? i).bind AssemblyAttributes.rule? with
        _ | rule
      · rfl
      · obtain ⟨hsome, hnone⟩ := h rule hrule
        have hempty : AssemblyAttributes.removeIfEmpty i run = (.ok (), run) := by
          rw [AssemblyAttributes.removeIfEmpty_apply, if_neg hsome]
        exact (bind_of_ok (AssemblyAttributes.removeMatching_of_none hnone)).trans
          (bind_of_ok hempty)
  | embeddedTypes =>
      replace h : EmbeddedTypes.isHelper run.tree i = false := h
      show EmbeddedTypes.visit i run = _
      rw [EmbeddedTypes.visit_apply, h, Bool.and_false]
      rfl

/-- Visits to nodes at rest write nothing and change nothing. -/
theorem StandardPass.yields_of_rests (hrests : ∀ i ∈ nodes, pass.Rests tree i) (changes : Nat)
    {spans : List Span} :
    (pass.sweep.visitAll changes nodes).Yields tree spans changes tree [] := by
  induction nodes with
  | nil => exact .pure changes
  | cons i rest ih =>
      have hvisit : (pass.sweep.visit i).Yields tree spans 0 tree [] := by
        rintro run hrun rfl hspans
        exact ⟨run, pass.visit_of_rests (hrests i List.mem_cons_self), hrun, rfl, hspans,
          (List.append_nil run.events).symm⟩
      have hrest := ih fun j hj => hrests j (List.mem_cons_of_mem i hj)
      exact .quiet_bind .abortPoint (.quiet_bind hvisit hrest)

/-! ## The node that has been visited -/

/-- An escaped name needs no escape. -/
theorem EscapeIdentifiers.rests_of_escaped {a b : Arena}
    (hdata : b.data? i = (a.data? i).map NodeData.escaped) :
    (b.identifierName? i).bind Identifier.escape? = none := by
  rcases hname : b.identifierName? i with _ | name
  · rfl
  · rw [Arena.identifierName?_eq_some_iff.mp hname] at hdata
    obtain ⟨data, -, hescaped⟩ := Option.map_eq_some_iff.mp hdata.symm
    cases data with
    | identifier before =>
        rw [← NodeData.identifier.inj hescaped]
        exact Identifier.escape?_eq_none_iff.mpr (Identifier.isValid_escape before)
    | _ => cases hescaped

/-- What hangs in an attribute of a section is not removed for itself when the
section is cleaned. -/
theorem AssemblyAttributes.not_doomedIn_below {c : NodeIndex} (hlinks : tree.arena.WellLinked)
    (hs : s ∈ sweep.nodes tree) (hi : i ∈ tree.arena.attributes s)
    (hc : c ∈ tree.arena.children i) : ¬ DoomedIn tree s c := by
  have hsi := hlinks.listed_iff.mp (mem_attributes.mp hi).1
  have hic := hlinks.listed_iff.mp hc
  rintro ⟨-, -, ⟨hcs, -⟩ | ⟨rfl, -⟩⟩
  · -- Then it would hang in the section, and the section in itself.
    have hsc := hlinks.listed_iff.mp (mem_attributes.mp hcs).1
    rw [hic] at hsc
    cases hsc
    exact hlinks.not_within_parent hsi .self
  · exact hlinks.not_within_parent hic (.child .self hsi)

/-- A section that is left when it has been cleaned is left alone. -/
theorem AssemblyAttributes.rests_of_cleaned {b : Arena} (hrooted : tree.Rooted)
    (hs : s ∈ sweep.nodes tree) (hb : tree.arena.Prunes (DoomedIn tree s) b)
    (hlive : b.isLive s = true) :
    StandardPass.assemblyAttributes.Rests { tree with arena := b } s := by
  have hlinks := hrooted.links
  intro rule hrule
  have hbefore : ruleFor? tree s = some rule := by
    rw [← hrule]
    show _ = (b.attributeTarget? s).bind rule?
    rw [hb.thins.attributeTarget?]
    rfl
  obtain ⟨target, -, htarget⟩ := Option.bind_eq_some_iff.mp hbefore
  have hlist : b.attributes s = (tree.arena.attributes s).filter b.isLive :=
    hb.thins.childrenOfKind_eq hlive .attributeUse
  have hparent : ∀ {j}, j ∈ tree.arena.attributes s → tree.arena.parent? j = some s :=
    fun hj => hlinks.listed_iff.mp (mem_attributes.mp hj).1
  constructor
  · -- Without an attribute that stays, the section would have gone.
    intro hnil
    have hkept : ¬ DoomedIn tree s s := fun hd => ((hb.live_iff s).mp hlive).2 s hd .self
    refine hkept ((doomedIn_iff hbefore).mpr (.inr ⟨rfl, fun j hj => ?_⟩))
    rcases hmatch : rule tree j with _ | _
    · rw [hlist, List.filter_eq_nil_iff] at hnil
      refine absurd (hb.child_live hlinks hlive (hparent hj) fun hd => ?_) (hnil j hj)
      rcases (doomedIn_iff hbefore).mp hd with ⟨-, hholds⟩ | ⟨rfl, -⟩
      · rw [hmatch] at hholds
        cases hholds
      · exact hlinks.not_within_parent (hparent hj) .self
    · rfl
  · intro j hj
    show rule { tree with arena := b } j = false
    replace hj : j ∈ b.attributes s := hj
    rw [hlist, List.mem_filter] at hj
    obtain ⟨hj, hjlive⟩ := hj
    have hchildren : ∀ c ∈ tree.arena.children j, b.isLive c = true := fun c hc =>
      hb.child_live hlinks hjlive (hlinks.listed_iff.mp hc) (not_doomedIn_below hlinks hs hj hc)
    rw [rule_eq hb.thins hjlive hchildren hlinks htarget, Bool.eq_false_iff]
    intro hmatch
    exact ((hb.live_iff j).mp hjlive).2 j ((doomedIn_iff hbefore).mpr (.inl ⟨hj, hmatch⟩)) .self

/-- A pass finds nothing more to do at the node that it has just visited. -/
theorem Visit.rests (h : Visit tree pass i tree') (hrooted : tree.Rooted)
    (hi : i ∈ pass.sweep.nodes tree') : pass.Rests tree' i := by
  have hlive := pass.isLive_of_mem_nodes (h.rooted hrooted) hi
  cases h with
  | name hmem hescapes =>
      have hcarries := hescapes.carries i
      rw [if_pos List.mem_cons_self] at hcarries
      exact EscapeIdentifiers.rests_of_escaped hcarries
  | attributes hs hprunes =>
      exact AssemblyAttributes.rests_of_cleaned hrooted hs hprunes hlive
  | skip hother => exact hother hlive
  | drop hkind hbefore hp hq =>
      have htarget := EmbeddedTypes.isLive_target hrooted.links hbefore hp
      have hout := ((Arena.isLive_cut hrooted.links htarget hq i).mp hlive).2
      exact absurd (EmbeddedTypes.within_target hp) hout

/-! ## Other nodes -/

/-- A visit changes nothing that a node carries, or escapes it. -/
theorem Visit.data?_cases (h : Visit tree pass i tree') (hrooted : tree.Rooted)
    (j : NodeIndex) :
    tree'.arena.data? j = tree.arena.data? j ∨
      tree'.arena.data? j = (tree.arena.data? j).map NodeData.escaped := by
  cases h with
  | name hi hescapes =>
      have hcarries := hescapes.carries j
      split at hcarries
      · exact .inr hcarries
      · exact .inl hcarries
  | attributes hs hprunes => exact .inl (hprunes.carries j)
  | skip hother => exact .inl rfl
  | drop hkind hlive hp hq => exact .inl (Arena.data?_cut hrooted.links _ j)

/-- A name that needs no escape needs none later. -/
theorem EscapeIdentifiers.keeps_rests (h : Visit tree pass i tree') (hrooted : tree.Rooted)
    (hrests : StandardPass.escapeIdentifiers.Rests tree j) :
    StandardPass.escapeIdentifiers.Rests tree' j := by
  rcases h.data?_cases hrooted j with hsame | hescaped
  · show (tree'.arena.identifierName? j).bind Identifier.escape? = none
    rw [Arena.identifierName?_congr hsame]
    exact hrests
  · exact rests_of_escaped hescaped

/-- Regular trees stay regular. -/
theorem Visit.regular (h : Visit tree pass i tree') (hregular : tree.Regular) :
    tree'.Regular := by
  obtain ⟨hlinks, hlive, hparentless, hunit⟩ := h.rooted hregular.rooted
  have hthins := h.thins hregular.rooted
  refine ⟨hlinks, hlive, hparentless, hunit, fun {i c} hkind hc => ?_⟩
  rw [hthins.kind?] at hkind ⊢
  have hparent := hthins.hung (hlinks.listed_iff.mp hc)
  exact hregular.attribute_child hkind (hregular.links.listed_iff.mpr hparent)

section Sections

variable (h : Visit tree pass i tree') (hregular : tree.Regular)

include h hregular

/-- What hangs in an attribute that is left is left. -/
theorem Visit.attribute_child_live {c : NodeIndex} (hlive : tree'.arena.isLive j = true)
    (hkind : tree.arena.kind? j = some .attributeUse) (hc : c ∈ tree.arena.children j) :
    tree'.arena.isLive c = true := by
  have hckind := hregular.attribute_child hkind hc
  rcases hgone : tree'.arena.isLive c with _ | _
  · -- Only attributes, sections, types and namespaces go by themselves.
    have hother : tree.arena.kind? c = some .attributeUse ∨
        tree.arena.kind? c = some .attributeSection ∨
        tree.arena.kind? c = some .typeDeclaration ∨
        tree.arena.kind? c = some .namespaceDeclaration := by
      rcases h.child_gone hregular.rooted (hregular.links.listed_iff.mp hc) hlive hgone with
        ⟨-, hi, hdoomed⟩ | ⟨-, hdrop⟩
      · exact or_assoc.mp (.inl (hdoomed.kind?_cases hi))
      · exact .inr (.inr hdrop)
    rcases hckind with hckind | hckind <;> rw [hckind] at hother <;> simp at hother
  · rfl

/-- A section with nothing to remove has nothing to remove later. -/
theorem AssemblyAttributes.keeps_rests (hs : tree'.arena.isLive s = true)
    (hrests : StandardPass.assemblyAttributes.Rests tree s) :
    StandardPass.assemblyAttributes.Rests tree' s := by
  have hlinks := hregular.links
  have hthins := h.thins hregular.rooted
  intro rule hrule
  have hbefore : ruleFor? tree s = some rule := by
    rw [← hrule]
    exact congrArg (Option.bind · rule?) (hthins.attributeTarget? s).symm
  obtain ⟨hsome, hnone⟩ := hrests rule hbefore
  obtain ⟨target, -, htarget⟩ := Option.bind_eq_some_iff.mp hbefore
  have hkept : ∀ j ∈ tree.arena.attributes s, tree'.arena.isLive j = true := by
    intro j hj
    rcases hgone : tree'.arena.isLive j with _ | _
    · obtain ⟨-, -, found, hfound, hmatch⟩ := h.attribute_gone hregular.rooted hs hj hgone
      rw [hbefore] at hfound
      cases hfound
      rw [hnone j hj] at hmatch
      cases hmatch
    · rfl
  have hlist : tree'.arena.attributes s = tree.arena.attributes s :=
    (hthins.childrenOfKind_eq hs .attributeUse).trans (List.filter_eq_self.mpr hkept)
  rw [hlist]
  refine ⟨hsome, fun j hj => ?_⟩
  have hchildren : ∀ c ∈ tree.arena.children j, tree'.arena.isLive c = true := fun c hc =>
    h.attribute_child_live hregular (hkept j hj) (mem_attributes.mp hj).2 hc
  rw [h.eq_arena, rule_eq hthins (hkept j hj) hchildren hlinks htarget]
  exact hnone j hj

/-- Where a pass finds nothing to do it finds nothing later. -/
theorem Visit.keeps_rests (hj : j ∈ other.sweep.nodes tree') (hrests : other.Rests tree j) :
    other.Rests tree' j := by
  cases other with
  | escapeIdentifiers => exact EscapeIdentifiers.keeps_rests h hregular.rooted hrests
  | assemblyAttributes =>
      have hlive := StandardPass.assemblyAttributes.isLive_of_mem_nodes
        (h.rooted hregular.rooted) hj
      exact AssemblyAttributes.keeps_rests h hregular hlive hrests
  | embeddedTypes =>
      rw [h.eq_arena]
      exact hrests

end Sections

/-! ## Any number of visits -/

namespace Visits

variable (h : Visits tree tree') (hregular : tree.Regular)

include h hregular

theorem regular : tree'.Regular := by
  induction h with
  | refl => exact hregular
  | tail _ hvisit ih =>
      obtain ⟨pass, i, hvisit⟩ := hvisit
      exact hvisit.regular ih

/-- No pass lists a node that it would not have listed before. -/
theorem mem_nodes (hj : j ∈ other.sweep.nodes tree') : j ∈ other.sweep.nodes tree := by
  rw [nodes_eq h hregular.rooted] at hj
  exact (List.mem_filter.mp hj).1

theorem keeps_rests (hj : j ∈ other.sweep.nodes tree') (hrests : other.Rests tree j) :
    other.Rests tree' j := by
  induction h with
  | refl => exact hrests
  | @tail mid _ hvisits hvisit ih =>
      obtain ⟨pass, i, hvisit⟩ := hvisit
      have hmid : mid.Regular := regular hvisits hregular
      have hbefore := hj
      rw [hvisit.nodes_eq hmid.rooted] at hbefore
      exact hvisit.keeps_rests hmid hj (ih (List.mem_filter.mp hbefore).1)

/-- What a pass has settled stays settled. -/
theorem keeps_settled (hsettled : other.Settled tree) : other.Settled tree' :=
  fun j hj => keeps_rests h hregular hj (hsettled j (mem_nodes h hregular hj))

end Visits

/-- After a tour the pass finds nothing to do at the nodes of the tour. -/
theorem Tour.rests (h : Tour pass nodes tree tree') (hregular : tree.Regular)
    (hi : i ∈ nodes) (hleft : i ∈ pass.sweep.nodes tree') : pass.Rests tree' i := by
  induction h with
  | done => cases hi
  | @visit top rest tree visited tree'' _ hvisit htour ih =>
      have hvisited := hvisit.regular hregular
      rcases List.mem_cons.mp hi with rfl | hi
      · have hthere := htour.visits.mem_nodes hvisited hleft
        exact htour.visits.keeps_rests hvisited hleft (hvisit.rests hregular.rooted hthere)
      · exact ih hvisited hi hleft

/-- A tour of all that a pass lists settles it. -/
theorem Tour.settled (h : Tour pass (pass.sweep.nodes tree) tree tree')
    (hregular : tree.Regular) : pass.Settled tree' :=
  fun _ hi => h.rests hregular (h.visits.mem_nodes hregular hi) hi

/-- A journey leaves a tree that all its passes have settled. -/
theorem Journey.settled {passes : List StandardPass} (h : Journey passes tree tree')
    (hregular : tree.Regular) : ∀ pass ∈ passes, pass.Settled tree' := by
  induction h with
  | done => exact fun _ habs => nomatch habs
  | pass htour hrest ih =>
      have htoured := htour.visits.regular hregular
      intro other hother
      rcases List.mem_cons.mp hother with rfl | hother
      · exact hrest.visits.keeps_settled htoured (htour.settled hregular)
      · exact ih htoured other hother

end Decompiled
