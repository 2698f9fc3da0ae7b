import Decompiled.Proofs.Arena.Confined
import Decompiled.Proofs.Arena.Reachable
import Decompiled.Proofs.Pass.Tour

/-!
# What a cancelled run leaves

Since no run is cancelled within a visit, nothing that a visit does is ever seen
half done. A section is left with an attribute, or goes with the last one; a
namespace of types is left with a type, or goes with the last one. And a visit
to a section leaves all other sections alone, so that a pass that is cancelled
has cleaned the first of them as it would have in the end, and no others.

* `Visit.attributes_ne_nil`, `Visit.holds_types`: what one visit leaves.
* `Tour.section_get?_eq`: how far a pass over the sections has come.
* `cancelled_tree_consistent`: what any run leaves.
-/

namespace Decompiled

open Work Attempt

variable {tree mid tree' : SyntaxTree} {a b : Arena} {pass : StandardPass}
  {i p s x : NodeIndex} {nodes : List NodeIndex} {run : Run}

/-! ## Sections with attributes -/

/-- A section that is left has attributes if it had any. -/
theorem Visit.attributes_ne_nil (h : Visit tree pass i tree') (hrooted : tree.Rooted)
    (hs : tree'.arena.isLive s = true) (hsome : tree.arena.attributes s ≠ []) :
    tree'.arena.attributes s ≠ [] := by
  intro hnil
  have hlist : tree'.arena.attributes s =
      (tree.arena.attributes s).filter tree'.arena.isLive :=
    (h.thins hrooted).childrenOfKind_eq hs .attributeUse
  rw [hlist, List.filter_eq_nil_iff] at hnil
  have hgone : ∀ j ∈ tree.arena.attributes s, tree'.arena.isLive j = false :=
    fun j hj => Bool.eq_false_iff.mpr (hnil j hj)
  obtain ⟨first, hfirst⟩ := List.exists_mem_of_ne_nil _ hsome
  obtain ⟨rfl, rfl, rule, hrule, -⟩ :=
    h.attribute_gone hrooted hs hfirst (hgone first hfirst)
  -- So the section would have gone with its attributes.
  have hdoomed : AssemblyAttributes.DoomedIn tree i i := by
    refine (AssemblyAttributes.doomedIn_iff hrule).mpr (.inr ⟨rfl, fun j hj => ?_⟩)
    obtain ⟨-, -, found, hfound, hmatch⟩ := h.attribute_gone hrooted hs hj (hgone j hj)
    rw [hrule] at hfound
    cases hfound
    exact hmatch
  rw [h.gone_of_doomed hdoomed] at hs
  cases hs

/-! ## Namespaces of types -/

/-- A node has members, and all of them are types. -/
def Arena.HoldsTypes (a : Arena) (p : NodeIndex) : Prop :=
  a.members p ≠ [] ∧ ∀ m ∈ a.members p, a.kind? m = some .typeDeclaration

/-- A type does not go alone if it is the only member of a namespace. -/
theorem EmbeddedTypes.not_single_of_target (hlinks : a.WellLinked)
    (hp : a.parent? (target a i) = some p)
    (hkind : a.kind? (target a i) = some .typeDeclaration) :
    isSingleMemberNamespace a p = false := by
  rw [Bool.eq_false_iff]
  intro hsingle
  rcases hi : a.parent? i with _ | q
  · have hself : target a i = i := by
      unfold target
      rw [hi]
    rw [hself, hi] at hp
    cases hp
  rcases target_cases hi with heq | ⟨heq, hspace⟩
  · rw [heq, hi] at hp
    cases hp
    -- Its namespace is what goes with it, and that is not itself.
    unfold target at heq
    rw [hi] at heq
    simp only [hsingle, if_true] at heq
    exact hlinks.not_within_parent hi (heq ▸ .self)
  · rw [heq, hspace] at hkind
    cases hkind

/-- A namespace of types that is left is still one. -/
theorem Visit.holds_types (h : Visit tree pass i tree') (hrooted : tree.Rooted)
    (hlive : tree'.arena.isLive p = true)
    (hkind : tree.arena.kind? p = some .namespaceDeclaration)
    (htypes : tree.arena.HoldsTypes p) : tree'.arena.HoldsTypes p := by
  obtain ⟨hsome, htypes⟩ := htypes
  have hlinks := hrooted.links
  have hthins := h.thins hrooted
  have hlist := hthins.members_eq hlive
  have hparent : ∀ {m}, m ∈ tree.arena.members p → tree.arena.parent? m = some p :=
    hlinks.parent_of_member
  have hnodup : (tree.arena.members p).Nodup := by
    rw [Arena.members_eq]
    exact (hlinks.nodup p).filter _
  refine ⟨fun hnil => ?_, fun m hm => ?_⟩
  · rw [hlist, List.filter_eq_nil_iff] at hnil
    -- One node is removed in a visit, so it was the only member.
    have hall : ∀ m ∈ tree.arena.members p, m = EmbeddedTypes.target tree.arena i := by
      intro m hm
      have hgone : tree'.arena.isLive m = false := Bool.eq_false_iff.mpr (hnil m hm)
      rcases h.child_gone hrooted (hparent hm) hlive hgone with
        ⟨-, hi, hdoomed⟩ | ⟨heq, -⟩
      · have hother := hdoomed.kind?_cases hi
        rw [htypes m hm] at hother
        rcases hother with habs | habs <;> cases habs
      · exact heq
    obtain ⟨m, hm⟩ := List.exists_mem_of_ne_nil _ hsome
    have hsingle : EmbeddedTypes.isSingleMemberNamespace tree.arena p = true := by
      have hone := List.eq_replicate_of_mem hall
      rw [hone, List.nodup_replicate] at hnodup
      have hpos := List.length_pos_iff.mpr hsome
      unfold EmbeddedTypes.isSingleMemberNamespace
      rw [hkind, beq_self_eq_true, Bool.true_and, beq_iff_eq]
      omega
    have htarget := hall m hm
    have hother := EmbeddedTypes.not_single_of_target hlinks
      (htarget ▸ hparent hm) (htarget ▸ htypes m hm)
    rw [hsingle] at hother
    cases hother
  · rw [hlist, List.mem_filter] at hm
    exact (hthins.kind? m).trans (htypes m hm.1)

/-! ## Sections of attributes one by one -/

/-- The announced removal of a node within a subtree. -/
theorem Work.confined_announce (hlinks : run.tree.arena.WellLinked)
    (hi : run.tree.arena.isLive i = true → run.tree.arena.Within s i) (notice : Notice) :
    run.tree.arena.Confined s (announce notice (Edit.remove i) run).2.tree.arena := by
  rw [announce_apply]
  exact .cut hlinks hi

theorem AssemblyAttributes.confined_removeMatching {rule : SyntaxTree → NodeIndex → Bool}
    (hlinks : run.tree.arena.WellLinked)
    (hnodes : ∀ i ∈ nodes, run.tree.arena.isLive i = true → run.tree.arena.Within s i) :
    run.tree.arena.Confined s
      (AssemblyAttributes.removeMatching rule nodes run).2.tree.arena := by
  induction nodes generalizing run with
  | nil => exact .refl hlinks
  | cons i rest ih =>
      rw [AssemblyAttributes.removeMatching_cons]
      split
      · have hcut := confined_announce hlinks (hnodes i List.mem_cons_self)
          (.removeAttribute i (run.tree.attributeFullName? i))
        refine state_bind (P := fun left : Run => run.tree.arena.Confined s left.tree.arena)
          (fun _ _ => hcut) fun _ _ => hcut.trans (ih hcut.thins.links fun j hj hlive => ?_)
        have hwithin := hnodes j (List.mem_cons_of_mem i hj) (hcut.thins.live hlive)
        exact (hcut.thins.within_iff hlive).mpr hwithin
      · exact ih hlinks fun j hj => hnodes j (List.mem_cons_of_mem i hj)

theorem AssemblyAttributes.confined_removeIfEmpty (hlinks : run.tree.arena.WellLinked)
    (s : NodeIndex) :
    run.tree.arena.Confined s (AssemblyAttributes.removeIfEmpty s run).2.tree.arena := by
  rw [AssemblyAttributes.removeIfEmpty_apply]
  split
  · exact confined_announce hlinks (fun _ => .self) _
  · exact .refl hlinks

/-- Cleaning a section changes that section and the root's list of children. -/
theorem AssemblyAttributes.confined_visit (hlinks : run.tree.arena.WellLinked)
    (s : NodeIndex) :
    run.tree.arena.Confined s (AssemblyAttributes.visit s run).2.tree.arena := by
  rw [AssemblyAttributes.visit_apply]
  rcases (run.tree.arena.attributeTarget? s).bind AssemblyAttributes.rule? with _ | rule
  · exact .refl hlinks
  · have hwithin : ∀ i ∈ run.tree.arena.attributes s, run.tree.arena.isLive i = true →
        run.tree.arena.Within s i :=
      fun i hi _ => .child .self (hlinks.listed_iff.mp (mem_attributes.mp hi).1)
    have hcleaned : run.tree.arena.Confined s (AssemblyAttributes.removeMatching rule
        (run.tree.arena.attributes s) run).2.tree.arena :=
      AssemblyAttributes.confined_removeMatching hlinks hwithin
    refine state_bind (P := fun left : Run => run.tree.arena.Confined s left.tree.arena)
      (fun _ _ => hcleaned) fun _ _ => ?_
    have hdone := hcleaned.trans
      (AssemblyAttributes.confined_removeIfEmpty hcleaned.thins.links s)
    exact state_bind (P := fun left : Run => run.tree.arena.Confined s left.tree.arena)
      (fun _ _ => hdone) fun _ _ => hdone

namespace Tour

/-- Visits to sections leave all slots alone that are in none of them. -/
theorem get?_eq (h : Tour .assemblyAttributes nodes tree tree')
    (hlinks : tree.arena.WellLinked)
    (hout : ∀ s ∈ nodes, ¬ tree.arena.Within s x ∧ tree.arena.parent? s ≠ some x) :
    tree'.arena.get? x = tree.arena.get? x := by
  induction h with
  | done => rfl
  | @visit s rest tree visited tree'' hturns _ _ ih =>
      have hconfined : tree.arena.Confined s visited.arena := by
        have hstart : (Run.start tree .fresh .never).tree.arena.WellLinked := hlinks
        obtain ⟨-, -, -, hvisited⟩ := hturns (.start tree .fresh .never) ⟨rfl, rfl⟩ rfl
        rw [← hvisited]
        exact AssemblyAttributes.confined_visit hstart s
      obtain ⟨hs, hsparent⟩ := hout s List.mem_cons_self
      refine (ih hconfined.thins.links fun other hother => ?_).trans
        (hconfined.same hs hsparent)
      obtain ⟨hwithin, hparent⟩ := hout other (List.mem_cons_of_mem s hother)
      exact ⟨fun hw => hwithin (hconfined.thins.within hw),
        fun hp => hparent (hconfined.thins.hung hp)⟩

/-- On the way of the pass, each section that it has visited is as the pass
leaves it in the end, and each other section is as the pass has found it. -/
theorem section_get?_eq {done rest : List NodeIndex} (hrooted : tree.Rooted)
    (hnodes : AssemblyAttributes.sweep.nodes tree = done ++ rest)
    (hdone : Tour .assemblyAttributes done tree mid)
    (hrest : Tour .assemblyAttributes rest mid tree') {j : Nat}
    (hj : (AssemblyAttributes.sweep.nodes tree)[j]? = some s) (hx : tree.arena.Within s x) :
    mid.arena.get? x =
      if j < done.length then tree'.arena.get? x else tree.arena.get? x := by
  have hlinks := hrooted.links
  have hparent : ∀ {other}, other ∈ AssemblyAttributes.sweep.nodes tree →
      tree.arena.parent? other = some tree.root :=
    fun hother => hlinks.listed_iff.mp (AssemblyAttributes.mem_nodes.mp hother).1
  have hs := hparent (List.mem_of_getElem? hj)
  -- The slot is in no other section, and it is not the root.
  have hapart : ∀ other ∈ AssemblyAttributes.sweep.nodes tree, other ≠ s →
      ¬ tree.arena.Within other x ∧ tree.arena.parent? other ≠ some x := by
    intro other hother hne
    refine ⟨fun hw => hlinks.siblings_apart (hparent hother) hs hne hw hx, fun hp => ?_⟩
    rw [hparent hother] at hp
    cases hp
    exact hlinks.not_within_parent hs hx
  have hnodup := StandardPass.assemblyAttributes.nodes_nodup hlinks
  replace hnodup : (done ++ rest).Nodup := hnodes ▸ hnodup
  obtain ⟨-, -, hdisjoint⟩ := List.nodup_append.mp hnodup
  rw [hnodes] at hj hapart
  have hthins := hdone.visits.thins hrooted
  split
  · rename_i hlt
    rw [List.getElem?_append_left hlt] at hj
    refine (hrest.get?_eq hthins.links fun other hother => ?_).symm
    have hne : other ≠ s := (hdisjoint s (List.mem_of_getElem? hj) other hother).symm
    obtain ⟨hwithin, hother⟩ := hapart other (List.mem_append_right _ hother) hne
    exact ⟨fun hw => hwithin (hthins.within hw), fun hp => hother (hthins.hung hp)⟩
  · rename_i hge
    rw [List.getElem?_append_right (Nat.le_of_not_lt hge)] at hj
    refine hdone.get?_eq hlinks fun other hother => ?_
    have hne : other ≠ s := hdisjoint other hother s (List.mem_of_getElem? hj)
    exact hapart other (List.mem_append_left _ hother) hne

end Tour

/-! ## Whole runs -/

/-- What is left of a tree in which nodes have been visited. -/
theorem Visits.attributes_ne_nil (h : Visits tree tree') (hrooted : tree.Rooted)
    (hs : tree'.arena.isLive s = true) (hsome : tree.arena.attributes s ≠ []) :
    tree'.arena.attributes s ≠ [] := by
  induction h with
  | refl => exact hsome
  | @tail mid _ hvisits hvisit ih =>
      obtain ⟨pass, i, hvisit⟩ := hvisit
      have hmid : mid.Rooted := Visits.rooted hvisits hrooted
      exact hvisit.attributes_ne_nil hmid hs (ih ((hvisit.thins hmid).live hs))

theorem Visits.holds_types (h : Visits tree tree') (hrooted : tree.Rooted)
    (hlive : tree'.arena.isLive p = true)
    (hkind : tree.arena.kind? p = some .namespaceDeclaration)
    (htypes : tree.arena.HoldsTypes p) : tree'.arena.HoldsTypes p := by
  induction h with
  | refl => exact htypes
  | @tail mid _ hvisits hvisit ih =>
      obtain ⟨pass, i, hvisit⟩ := hvisit
      have hmid : mid.Rooted := Visits.rooted hvisits hrooted
      have hmidkind := ((Visits.thins hvisits hrooted).kind? p).trans hkind
      exact hvisit.holds_types hmid hlive hmidkind (ih ((hvisit.thins hmid).live hlive))

/-- A run of two lists of passes goes on with the second one if the first one
succeeds, and has stopped otherwise. -/
theorem runPasses_append (ps qs : List StandardPass) (tree : SyntaxTree) (token : Token)
    (moment : Moment) :
    runPasses (ps ++ qs) tree token moment =
      match runPasses ps tree token moment with
      | (.ok (), run) => Pass.performAll (qs.map StandardPass.pass) run
      | (.error error, run) => (.error error, run) := by
  unfold runPasses Pipeline.run
  rw [Pipeline.passes_ofList, Pipeline.passes_ofList, List.map_append, Pass.performAll_append,
    bind_apply]
  rcases Pass.performAll (ps.map StandardPass.pass) (.start tree token moment) with
    ⟨error | ⟨⟩, run⟩ <;> rfl

/-- A pass that removes attributes at the end of some passes, wherever the run
stops: the sections that it has visited come first, and are as the pass leaves
them in the end; the others are as it has found them. -/
theorem sections_stopped (hrooted : tree.Rooted) (passes : List StandardPass) (token : Token)
    (moment : Moment) :
    let started := (runPasses passes tree token moment).2.tree
    let stopped := (runPasses (passes ++ [.assemblyAttributes]) tree token moment).2.tree
    let whole := (runPasses [.assemblyAttributes] started .fresh .never).2.tree
    ∃ k : Nat, ∀ j s,
      (started.arena.childrenOfKind started.root .attributeSection)[j]? = some s →
      ∀ x, started.arena.Within s x → stopped.arena.get? x =
        if j < k then whole.arena.get? x else started.arena.get? x := by
  intro started stopped whole
  obtain ⟨_, -, hmidway, -⟩ := midway_runPasses hrooted passes token moment
  have hstarted : started.Rooted := hmidway.visits.rooted hrooted
  have happend := runPasses_append passes [.assemblyAttributes] tree token moment
  rcases hran : runPasses passes tree token moment with ⟨error | ⟨⟩, run⟩
  · -- The pass has not been started.
    rw [hran] at happend
    have hsame : stopped = started := by
      unfold stopped started
      rw [happend, hran]
    refine ⟨0, fun j s _ x _ => ?_⟩
    rw [hsame, if_neg (Nat.not_lt_zero j)]
  · rw [hran] at happend
    have hone : Pass.performAll ([StandardPass.assemblyAttributes].map StandardPass.pass) =
        StandardPass.assemblyAttributes.pass.perform :=
      bind_pure StandardPass.assemblyAttributes.pass.perform
    have hstopped : (StandardPass.assemblyAttributes.pass.perform run).2.tree = stopped := by
      unfold stopped
      rw [happend, ← hone]
    have htree : run.tree = started := by
      unfold started
      rw [hran]
    obtain ⟨final, htour⟩ := StandardPass.assemblyAttributes.exists_tour hstarted
    have hwhole : whole = final :=
      (runPasses_of_performAll (Journey.pass htour .done).turns).2
    obtain ⟨done, rest, hnodes, hdone, hrest, -⟩ := htour.stops_perform htree
    rw [hstopped] at hdone hrest
    refine ⟨done.length, fun j s hj x hx => ?_⟩
    rw [hwhole]
    exact Tour.section_get?_eq hstarted hnodes hdone hrest hj hx

/-- What a run leaves of a tree whose root is a live compilation unit below
nothing, whoever cancels it and when. A section of attributes directly below the
root that had attributes has some left. A namespace whose members were types,
one or more, has members left. And wherever a pass that removes attributes stops
in the run, at its end or because the run is cancelled there, some number of
sections directly below the root, the first ones in order, are as the whole pass
would leave them, and all others are as it has found them. -/
theorem cancelled_tree_consistent (passes : List StandardPass) {tree : SyntaxTree}
    (hreachable : tree.arena.Reachable) (hfits : tree.arena.Fits)
    (hlive : tree.arena.isLive tree.root = true)
    (hparentless : tree.arena.parent? tree.root = none)
    (hunit : tree.arena.kind? tree.root = some .compilationUnit)
    (token : Token) (moment : Moment) :
    let left := (runPasses passes tree token moment).2.tree
    (∀ s ∈ left.arena.childrenOfKind left.root .attributeSection,
      left.arena.isLive s = true → tree.arena.attributes s ≠ [] →
        left.arena.attributes s ≠ []) ∧
    (∀ before after, passes = before ++ .assemblyAttributes :: after →
      let started := (runPasses before tree token moment).2.tree
      let stop := runPasses (before ++ [.assemblyAttributes]) tree token moment
      let whole := (runPasses [.assemblyAttributes] started .fresh .never).2.tree
      (∀ error, stop.1 = .error error → left = stop.2.tree) ∧
      ∃ k : Nat, ∀ j s,
        (started.arena.childrenOfKind started.root .attributeSection)[j]? = some s →
        ∀ x, started.arena.Within s x → stop.2.tree.arena.get? x =
          if j < k then whole.arena.get? x else started.arena.get? x) ∧
    (∀ p, left.arena.isLive p = true → left.arena.kind? p = some .namespaceDeclaration →
      tree.arena.members p ≠ [] →
      (∀ m ∈ tree.arena.members p, tree.arena.kind? m = some .typeDeclaration) →
        left.arena.members p ≠ []) := by
  intro left
  have hrooted : tree.Rooted := ⟨hreachable.wellLinked hfits, hlive, hparentless, hunit⟩
  obtain ⟨_, -, hmidway, -⟩ := midway_runPasses hrooted passes token moment
  have hvisits : Visits tree left := hmidway.visits
  refine ⟨fun s _ hs hsome => hvisits.attributes_ne_nil hrooted hs hsome,
    fun before after hpasses => ⟨fun error hstop => ?_,
      sections_stopped hrooted before token moment⟩,
    fun p hp hkind hsome htypes => ?_⟩
  · have happend := runPasses_append (before ++ [.assemblyAttributes]) after tree token moment
    rw [List.append_assoc, List.singleton_append, ← hpasses] at happend
    rcases hran : runPasses (before ++ [.assemblyAttributes]) tree token moment with
      ⟨failed | ⟨⟩, run⟩
    · rw [hran] at happend
      unfold left
      rw [happend, hran]
    · rw [hran] at hstop
      cases hstop
  · rw [(hvisits.thins hrooted).kind?] at hkind
    exact (hvisits.holds_types hrooted hp hkind ⟨hsome, htypes⟩).1

/-- A unit of two sections with attributes that the compiler wrote, one of them
with another attribute as well, and a namespace of two types of which one is a
helper. -/
def sectionedUnit : SyntaxTree where
  arena := Arena.build
    [.addRoot .compilationUnit, .addAttributeSection ⟨0⟩ .wholeModule,
      .addAttribute ⟨1⟩ "UnverifiableCode", .addAttribute ⟨1⟩ "Serializable",
      .addAttributeSection ⟨0⟩ .wholeModule, .addAttribute ⟨6⟩ "UnverifiableCode",
      .addNamespace ⟨0⟩ "N", .addTypeDeclaration ⟨9⟩ .classType "E",
      .addTypeDeclaration ⟨9⟩ .classType "C"]
  root := ⟨0⟩
  annotations :=
    ⟨[(⟨3⟩, KnownNames.unverifiableCode), (⟨8⟩, KnownNames.unverifiableCode)],
      [(⟨11⟩, ⟨KnownNames.embedded, ⟨1⟩⟩)]⟩

/-- Cancelled when it has cleaned the first section and not the second one. -/
theorem cancelled_sectionedUnit_consistent :
    let started := (runPasses [.embeddedTypes] sectionedUnit .fresh (.atEvent 3)).2.tree
    let left := (runPasses [.embeddedTypes, .assemblyAttributes] sectionedUnit .fresh
      (.atEvent 3)).2.tree
    let whole := (runPasses [.assemblyAttributes] started .fresh .never).2.tree
    left.arena ≠ started.arena ∧ left.arena ≠ whole.arena ∧
      left.arena.attributes ⟨1⟩ ≠ [] ∧ left.arena.members ⟨9⟩ ≠ [] ∧
      ∃ k : Nat, ∀ j s,
        (started.arena.childrenOfKind started.root .attributeSection)[j]? = some s →
        ∀ x, started.arena.Within s x → left.arena.get? x =
          if j < k then whole.arena.get? x else started.arena.get? x := by
  have hreachable : sectionedUnit.arena.Reachable := Arena.reachable_build _
  obtain ⟨hattributes, hsections, hmembers⟩ := cancelled_tree_consistent
    [.embeddedTypes, .assemblyAttributes] hreachable (by decide) (by decide) (by decide)
    (by decide) .fresh (.atEvent 3)
  have hsome := hattributes ⟨1⟩ (by decide +kernel) (by decide +kernel) (by decide)
  have hleft := hmembers ⟨9⟩ (by decide +kernel) (by decide +kernel) (by decide) (by decide)
  have hstopped := (hsections [.embeddedTypes] [] rfl).2
  rw [List.singleton_append] at hstopped
  exact ⟨by decide +kernel, by decide +kernel, hsome, hleft, hstopped⟩

end Decompiled
