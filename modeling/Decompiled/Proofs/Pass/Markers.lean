import Decompiled.Proofs.Pass.AssemblyAttributes
import Decompiled.Proofs.Run.History

/-!
# What removing compiler-written attributes leaves

The sections directly below the root that apply to the assembly or to its module
are cleaned. What goes is told of the tree before the run, and slot by slot all
else is as it was: removed nodes, other trees, sections that apply to something
else and sections further down.

* `AssemblyAttributes.Goes`: the attributes and sections that are removed.
* `AssemblyAttributes.goes_iff_doomed`: the sweep removes exactly these.
* `AssemblyAttributes.removes_markers`: the effect of a run of the pass.
-/

namespace Decompiled.AssemblyAttributes

open Work

variable {tree : SyntaxTree} {rule : SyntaxTree → NodeIndex → Bool} {d i p s t x : NodeIndex}

/-! ## What goes -/

/-- A section directly below the root that applies to the assembly or to its
module. -/
def Inspected (tree : SyntaxTree) (s : NodeIndex) : Prop :=
  s ∈ tree.arena.children tree.root ∧
    (tree.arena.attributeTarget? s = some .assembly ∨
      tree.arena.attributeTarget? s = some .wholeModule)

/-- An attribute that a compiler writes in such a section. -/
def Marker (tree : SyntaxTree) (s i : NodeIndex) : Prop :=
  (tree.arena.attributeTarget? s = some .assembly ∧ isAssemblyMarker tree i = true) ∨
    (tree.arena.attributeTarget? s = some .wholeModule ∧ isModuleMarker tree i = true)

instance (tree : SyntaxTree) (s : NodeIndex) : Decidable (Inspected tree s) :=
  inferInstanceAs (Decidable (_ ∧ _))

instance (tree : SyntaxTree) (s i : NodeIndex) : Decidable (Marker tree s i) :=
  inferInstanceAs (Decidable (_ ∨ _))

/-- The nodes that are removed with all that is below them. -/
inductive Goes (tree : SyntaxTree) : NodeIndex → Prop
  /-- An attribute that a compiler writes. -/
  | marker {s i : NodeIndex} : Inspected tree s → i ∈ tree.arena.children s →
      tree.arena.kind? i = some .attributeUse → Marker tree s i → Goes tree i
  /-- A section with no other attribute, and one with none at all. -/
  | emptied {s : NodeIndex} : Inspected tree s →
      (∀ i ∈ tree.arena.children s, tree.arena.kind? i = some .attributeUse → Marker tree s i) →
        Goes tree s

/-- A node at or below one that goes. -/
def Leaves (tree : SyntaxTree) (x : NodeIndex) : Prop :=
  ∃ d, Goes tree d ∧ tree.arena.Within d x

theorem kind?_of_attributeTarget? {a : Arena} {target : AttributeTarget}
    (h : a.attributeTarget? s = some target) : a.kind? s = some .attributeSection := by
  obtain ⟨node, hget, hdata⟩ := Option.bind_eq_some_iff.mp h
  rw [Arena.kind?_eq, Arena.data?_of_get? hget]
  split at hdata
  · rename_i heq
    rw [Option.map_some, heq]
    rfl
  · cases hdata

/-- These are the sections that the sweep has a rule for. -/
theorem inspected_iff :
    Inspected tree s ↔ s ∈ sweep.nodes tree ∧ ∃ rule, ruleFor? tree s = some rule := by
  rw [mem_nodes]
  unfold Inspected ruleFor?
  constructor
  · rintro ⟨hs, htarget | htarget⟩
    · exact ⟨⟨hs, kind?_of_attributeTarget? htarget⟩, _, by rw [htarget]; rfl⟩
    · exact ⟨⟨hs, kind?_of_attributeTarget? htarget⟩, _, by rw [htarget]; rfl⟩
  · rintro ⟨⟨hs, -⟩, rule, hrule⟩
    obtain ⟨target, htarget, hfound⟩ := Option.bind_eq_some_iff.mp hrule
    cases target with
    | assembly => exact ⟨hs, .inl htarget⟩
    | wholeModule => exact ⟨hs, .inr htarget⟩
    | other keyword => cases hfound

/-- The rule says which attributes a compiler writes. -/
theorem marker_iff (hrule : ruleFor? tree s = some rule) :
    Marker tree s i ↔ rule tree i = true := by
  obtain ⟨target, htarget, hfound⟩ := Option.bind_eq_some_iff.mp hrule
  unfold Marker
  rw [htarget]
  cases target with
  | assembly =>
      cases hfound
      simp
  | wholeModule =>
      cases hfound
      simp
  | other keyword => cases hfound

/-- The sweep removes what goes. -/
theorem goes_iff_doomed : Goes tree d ↔ Doomed tree d := by
  constructor
  · intro h
    cases h with
    | @marker s _ hs hd hkind hmarker =>
        obtain ⟨hnode, rule, hrule⟩ := inspected_iff.mp hs
        have hmatch := (marker_iff hrule).mp hmarker
        exact ⟨s, hnode, rule, hrule, .inl ⟨mem_attributes.mpr ⟨hd, hkind⟩, hmatch⟩⟩
    | emptied hs hall =>
        obtain ⟨hnode, rule, hrule⟩ := inspected_iff.mp hs
        refine ⟨d, hnode, rule, hrule, .inr ⟨rfl, fun i hi => ?_⟩⟩
        obtain ⟨hchild, hkind⟩ := mem_attributes.mp hi
        exact (marker_iff hrule).mp (hall i hchild hkind)
  · rintro ⟨s, hnode, rule, hrule, ⟨hd, hmatch⟩ | ⟨rfl, hall⟩⟩
    · have hs := inspected_iff.mpr ⟨hnode, rule, hrule⟩
      obtain ⟨hchild, hkind⟩ := mem_attributes.mp hd
      exact .marker hs hchild hkind ((marker_iff hrule).mpr hmatch)
    · refine .emptied (inspected_iff.mpr ⟨hnode, rule, hrule⟩) fun i hchild hkind => ?_
      exact (marker_iff hrule).mpr (hall i (mem_attributes.mpr ⟨hchild, hkind⟩))

/-! ## Where it is -/

namespace Goes

variable (h : Goes tree d) (hlinks : tree.arena.WellLinked)

include h hlinks

theorem exists_section : ∃ s, Inspected tree s ∧ (d = s ∨ tree.arena.parent? d = some s) := by
  cases h with
  | marker hs hd _ _ => exact ⟨_, hs, .inr (hlinks.listed_iff.mp hd)⟩
  | emptied hs _ => exact ⟨d, hs, .inl rfl⟩

/-- What goes is below the root. -/
theorem parent_within (hp : tree.arena.parent? d = some p) :
    tree.arena.Within tree.root p := by
  obtain ⟨s, ⟨hs, -⟩, rfl | hparent⟩ := h.exists_section hlinks
  · rw [hlinks.listed_iff.mp hs] at hp
    cases hp
    exact .self
  · rw [hparent] at hp
    cases hp
    exact .child .self (hlinks.listed_iff.mp hs)

theorem within_root : tree.arena.Within tree.root d := by
  obtain ⟨s, ⟨hs, -⟩, rfl | hparent⟩ := h.exists_section hlinks
  · exact .child .self (hlinks.listed_iff.mp hs)
  · exact .child (.child .self (hlinks.listed_iff.mp hs)) hparent

/-- It is apart from all that hangs in the root beside the inspected sections. -/
theorem apart_of_child (ht : t ∈ tree.arena.children tree.root) (hother : ¬ Inspected tree t) :
    ¬ tree.arena.Within d t ∧ ¬ tree.arena.Within t d := by
  obtain ⟨s, hs, hplace⟩ := h.exists_section hlinks
  have hsd : tree.arena.Within s d := by
    rcases hplace with rfl | hparent
    · exact .self
    · exact .child .self hparent
  have hne : s ≠ t := by
    rintro rfl
    exact hother hs
  have hapart : ∀ {x}, tree.arena.Within s x → ¬ tree.arena.Within t x :=
    hlinks.siblings_apart (hlinks.listed_iff.mp hs.1) (hlinks.listed_iff.mp ht) hne
  exact ⟨fun hw => hapart (hsd.trans hw) .self, hapart hsd⟩

/-- It is in no subtree that starts further down, unless it is the top. -/
theorem not_within_of_deep (hbelow : tree.arena.Within tree.root t) (hroot : t ≠ tree.root)
    (hdeep : t ∉ tree.arena.children tree.root) (hne : d ≠ t) : ¬ tree.arena.Within t d := by
  have habove : ¬ tree.arena.Within t tree.root := fun hw =>
    hroot (hw.antisymm hlinks hbelow)
  intro hw
  obtain ⟨s, ⟨hs, -⟩, hplace⟩ := h.exists_section hlinks
  have hsroot := hlinks.listed_iff.mp hs
  have hst : s ≠ t := by
    rintro rfl
    exact hdeep hs
  rcases hplace with rfl | hparent
  · exact habove (hw.up hne hsroot)
  · exact habove ((hw.up hne hparent).up hst hsroot)

end Goes

/-! ## A run of the pass -/

/-- The pass prunes the tree at what goes, and removed nodes keep their place. -/
theorem exists_pruned {run : Run} (hrun : run.Undisturbed) (hlinks : run.tree.arena.WellLinked)
    (hfits : run.tree.arena.Fits) (hroot : run.tree.arena.isLive run.tree.root = true) :
    (pass.run run).1 = .ok () ∧
    ∃ after, (pass.run run).2.tree = { run.tree with arena := after } ∧
      run.tree.arena.Prunes (Goes run.tree) after ∧ run.tree.arena.Precedes after := by
  obtain ⟨after, hturns, hprunes⟩ := turns_sweep hlinks hroot
  obtain ⟨⟨⟩, hok, -, htree⟩ := hturns run hrun rfl
  have harena : (pass.run run).2.tree.arena = after := congrArg SyntaxTree.arena htree
  have hafter : after.Fits := by
    unfold Arena.Fits
    rw [hprunes.thins.size]
    exact hfits
  refine ⟨hok, after, htree, hprunes.congr fun d => goes_iff_doomed.symm, ?_⟩
  rw [← harena] at hafter ⊢
  exact StandardPass.precedes_run .assemblyAttributes hlinks hafter

/-- What a run of the pass that nobody cancels does to a tree with a live root. It
succeeds. It removes the attributes that a compiler writes in the sections directly
below the root for the assembly or its module, and those of these sections that
have no other attribute, with all below them. Every other slot holds what it held,
with the children that have not been removed in the same order. So what is not
below the root is as it was, and so is all at and below a node that hangs in the
root and is no such section, and all at and below a node further down that is
left. -/
theorem removes_markers {run : Run} (hrun : run.Undisturbed)
    (hreachable : run.tree.arena.Reachable) (hfits : run.tree.arena.Fits)
    (hroot : run.tree.arena.isLive run.tree.root = true) :
    let tree := run.tree
    let before := run.tree.arena
    (pass.run run).1 = .ok () ∧
    ∃ after, (pass.run run).2.tree = { run.tree with arena := after } ∧
      (∀ x, before.isLive x = true ∧ after.isLive x = false ↔ Leaves tree x) ∧
      (after.size = before.size ∧
        ∀ x node, before.get? x = some node → ¬ Leaves tree x → after.get? x = some
          { node with
            children := node.children.filter fun c => before.isLive c == after.isLive c }) ∧
      (∀ x, ¬ before.Within tree.root x → after.get? x = before.get? x) ∧
      (∀ t ∈ before.children tree.root, ¬ Inspected tree t →
        ∀ x, before.Within t x → after.get? x = before.get? x) ∧
      ∀ t, before.Within tree.root t → t ≠ tree.root → t ∉ before.children tree.root →
        ¬ Leaves tree t → ∀ x, before.Within t x → after.get? x = before.get? x := by
  intro tree before
  have hlinks := hreachable.wellLinked hfits
  obtain ⟨hok, after, htree, hprunes, hhistory⟩ := exists_pruned hrun hlinks hfits hroot
  refine ⟨hok, after, htree, fun x => ⟨?_, ?_⟩, ⟨hprunes.thins.size, fun x node hget hx => ?_⟩,
    fun x hout => ?_, fun t ht hother x hx => ?_, fun t hbelow hne hdeep hleft x hx => ?_⟩
  · rintro ⟨hlive, hgone⟩
    exact hprunes.exists_top hlive (Bool.eq_false_iff.mp hgone)
  · rintro ⟨d, hd, hw⟩
    have hwithin := (hd.within_root hlinks).trans hw
    refine ⟨(hwithin.isLive_eq hlinks).trans hroot, Bool.eq_false_iff.mpr fun hlive => ?_⟩
    exact ((hprunes.live_iff x).mp hlive).2 d hd hw
  · exact hprunes.get?_eq_of_kept hlinks hhistory (fun d hd hw => hx ⟨d, hd, hw⟩) hget
  · refine hprunes.get?_eq_of_apart hlinks hhistory (fun d hd hw => ?_) fun c hc hgoes => ?_
    · exact hout ((hd.within_root hlinks).trans hw)
    · exact hout (hgoes.parent_within hlinks hc)
  · exact hprunes.get?_eq_of_within hlinks hhistory
      (fun d hd => hd.apart_of_child hlinks ht hother) hx
  · refine hprunes.get?_eq_of_within hlinks hhistory (fun d hd => ?_) hx
    have habove : ¬ before.Within d t := fun hw => hleft ⟨d, hd, hw⟩
    refine ⟨habove, hd.not_within_of_deep hlinks hbelow hne hdeep ?_⟩
    rintro rfl
    exact habove .self

/-- A namespace with sections of several kinds, in a unit with a section of its
own. -/
def markedSpace : SyntaxTree where
  arena := Arena.build
    [.addRoot .compilationUnit, .addNamespace ⟨0⟩ "N", .addAttributeSection ⟨1⟩ .assembly,
      .addAttribute ⟨3⟩ "Debuggable", .addAttribute ⟨3⟩ "Serializable",
      .addAttributeSection ⟨1⟩ .assembly, .addAttributeSection ⟨1⟩ .wholeModule,
      .addAttribute ⟨9⟩ "UnverifiableCode", .addAttributeSection ⟨1⟩ (.other "return"),
      .addAttribute ⟨12⟩ "Debuggable", .addTypeDeclaration ⟨1⟩ .classType "C",
      .addAttributeSection ⟨15⟩ .assembly, .addAttributeSection ⟨0⟩ .assembly]
  root := ⟨1⟩
  annotations :=
    ⟨[(⟨5⟩, KnownNames.debuggable), (⟨11⟩, KnownNames.unverifiableCode),
      (⟨14⟩, KnownNames.debuggable)], []⟩

/-- With the namespace as root, one section loses an attribute, and the one that
is empty and the one that is emptied go. The others stay as they are: one for
something else, one further down and one outside. -/
theorem removes_markedSpace :
    let ran := pass.run (.start markedSpace .fresh .never)
    ran.1 = .ok () ∧ ran.2.tree.arena.children ⟨3⟩ = [⟨6⟩] ∧
      (∀ x ∈ [⟨4⟩, ⟨8⟩, ⟨9⟩, ⟨10⟩], ran.2.tree.arena.isLive x = false) ∧
      ∀ x ∈ [⟨12⟩, ⟨17⟩, ⟨18⟩], ran.2.tree.arena.get? x = markedSpace.arena.get? x := by
  have hrun : (Run.start markedSpace .fresh .never).Undisturbed := ⟨rfl, rfl⟩
  have hreachable : markedSpace.arena.Reachable := Arena.reachable_build _
  have hlinks := hreachable.wellLinked (by decide)
  obtain ⟨hok, after, htree, hleaves, -, hout, hbeside, -⟩ :=
    removes_markers hrun hreachable (by decide) (by decide)
  refine ⟨hok, by decide +kernel, ?_, ?_⟩
  · have hmarker : Goes markedSpace ⟨4⟩ :=
      @Goes.marker _ ⟨3⟩ _ (by decide +kernel) (by decide +kernel) (by decide +kernel)
        (by decide +kernel)
    have hempty : Goes markedSpace ⟨8⟩ := .emptied (by decide +kernel) (by decide +kernel)
    have hemptied : Goes markedSpace ⟨9⟩ := .emptied (by decide +kernel) (by decide +kernel)
    have hbelow : markedSpace.arena.Within ⟨9⟩ ⟨10⟩ := .child .self (by decide +kernel)
    rw [htree]
    intro x hx
    refine ((hleaves x).mpr ?_).2
    simp only [List.mem_cons, List.not_mem_nil, or_false] at hx
    rcases hx with rfl | rfl | rfl | rfl
    · exact ⟨_, hmarker, .self⟩
    · exact ⟨_, hempty, .self⟩
    · exact ⟨_, hemptied, .self⟩
    · exact ⟨_, hemptied, hbelow⟩
  · have hbelow : markedSpace.arena.Within ⟨15⟩ ⟨17⟩ := .child .self (by decide +kernel)
    have houtside : ¬ markedSpace.arena.Within ⟨1⟩ ⟨18⟩ := by
      intro hw
      have hunit : markedSpace.arena.Within ⟨1⟩ ⟨0⟩ := hw.up (by decide) (by decide +kernel)
      exact absurd (hunit.le hlinks) (by decide)
    rw [htree]
    intro x hx
    simp only [List.mem_cons, List.not_mem_nil, or_false] at hx
    rcases hx with rfl | rfl | rfl
    · exact hbeside ⟨12⟩ (by decide +kernel) (by decide +kernel) _ .self
    · exact hbeside ⟨15⟩ (by decide +kernel) (by decide +kernel) _ hbelow
    · exact hout _ houtside

end Decompiled.AssemblyAttributes
