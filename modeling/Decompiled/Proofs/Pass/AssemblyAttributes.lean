import Decompiled.Proofs.Arena.Pruning
import Decompiled.Proofs.Run.Undisturbed

/-!
# What removing compiler-written attributes does

An undisturbed sweep over the sections of a live root succeeds. It prunes the
tree at the attributes that the rule of their section holds of, and at the
sections without any other attribute. The rules are asked while the sweep is
going on, but their answers depend on the subtree of an attribute alone, which
nothing else reaches into.

* `AssemblyAttributes.rule_eq`: a rule answers the same in a thinned tree.
* `AssemblyAttributes.Doomed`: what the sweep removes, told before it starts.
* `AssemblyAttributes.turns_sweep`: it removes exactly that.
-/

namespace Decompiled

open Work

namespace AssemblyAttributes

variable {tree : SyntaxTree} {b : Arena} {i s d x : NodeIndex}
  {rule : SyntaxTree → NodeIndex → Bool}

/-! ## The rules -/

theorem attributeFullName?_eq (h : tree.arena.Thins b) (i : NodeIndex) :
    ({ tree with arena := b } : SyntaxTree).attributeFullName? i =
      tree.attributeFullName? i := by
  unfold SyntaxTree.attributeFullName?
  show (b.attributeTypeRef? i).bind _ = _
  rw [h.attributeTypeRef?]

section Rules

variable (h : tree.arena.Thins b) (hlive : b.isLive i = true)
  (hall : ∀ c ∈ tree.arena.children i, b.isLive c = true)

include h hlive hall

theorem arguments_eq : b.arguments i = tree.arena.arguments i := by
  unfold Arena.arguments Arena.childrenOfKind
  rw [h.lists_all hlive hall]
  apply List.filter_congr
  intro c _
  rw [h.kind?]

variable (hlinks : tree.arena.WellLinked)

include hlinks

theorem nextSibling?_eq {first : NodeIndex} (hfirst : first ∈ tree.arena.children i) :
    b.nextSibling? first = tree.arena.nextSibling? first := by
  have hparent := hlinks.listed_iff.mp hfirst
  unfold Arena.nextSibling?
  rw [h.hangs (hall first hfirst), hparent, Option.bind_some, Option.bind_some,
    h.lists_all hlive hall]

theorem isSkipVerificationRequest_eq :
    isSkipVerificationRequest b (tree.arena.arguments i) =
      isSkipVerificationRequest tree.arena (tree.arena.arguments i) := by
  rcases hlist : tree.arena.arguments i with _ | ⟨first, _ | ⟨second, _ | ⟨third, rest⟩⟩⟩
  · rfl
  · rfl
  · have hfirst : first ∈ tree.arena.children i := by
      have hmem : first ∈ tree.arena.arguments i := by
        rw [hlist]
        exact List.mem_cons_self
      exact (List.mem_filter.mp hmem).1
    have hnamed : isNamedTrue b = isNamedTrue tree.arena := by
      funext name j
      unfold isNamedTrue
      rw [h.argument?]
    simp only [isSkipVerificationRequest, isRequestMinimum]
    rw [h.argument?, nextSibling?_eq h hlive hall hlinks hfirst, hnamed]
  · rfl

/-- A rule answers the same as long as the attribute and its children are
there. -/
theorem rule_eq {target : AttributeTarget} (hrule : rule? target = some rule) :
    rule { tree with arena := b } i = rule tree i := by
  cases target with
  | assembly =>
      cases hrule
      have hargument : b.argument? = tree.arena.argument? := funext h.argument?
      have hnamed : isNamedTrue b = isNamedTrue tree.arena := by
        funext name j
        unfold isNamedTrue
        rw [hargument]
      unfold isAssemblyMarker
      rw [attributeFullName?_eq h]
      simp only [arguments_eq h hlive hall, hargument, hnamed,
        isSkipVerificationRequest_eq h hlive hall hlinks]
  | wholeModule =>
      cases hrule
      unfold isModuleMarker
      rw [attributeFullName?_eq h]
  | other keyword => cases hrule

end Rules

/-! ## What is removed -/

/-- The rule that a section is cleaned by, if there is one. -/
def ruleFor? (tree : SyntaxTree) (s : NodeIndex) : Option (SyntaxTree → NodeIndex → Bool) :=
  (tree.arena.attributeTarget? s).bind rule?

/-- What is removed when a section is cleaned: the attributes that its rule
holds of, and the section if there is no other. -/
def DoomedIn (tree : SyntaxTree) (s d : NodeIndex) : Prop :=
  ∃ rule, ruleFor? tree s = some rule ∧
    ((d ∈ tree.arena.attributes s ∧ rule tree d = true) ∨
      (d = s ∧ ∀ i ∈ tree.arena.attributes s, rule tree i = true))

theorem doomedIn_iff (hrule : ruleFor? tree s = some rule) :
    DoomedIn tree s d ↔ (d ∈ tree.arena.attributes s ∧ rule tree d = true) ∨
      (d = s ∧ ∀ i ∈ tree.arena.attributes s, rule tree i = true) := by
  unfold DoomedIn
  constructor
  · rintro ⟨found, hfound, hd⟩
    rw [hrule] at hfound
    cases hfound
    exact hd
  · exact fun hd => ⟨rule, hrule, hd⟩

theorem not_doomedIn (hrule : ruleFor? tree s = none) : ¬ DoomedIn tree s d := by
  rintro ⟨found, hfound, -⟩
  rw [hrule] at hfound
  cases hfound

/-- What is removed when all sections directly below the root are cleaned. -/
def Doomed (tree : SyntaxTree) (d : NodeIndex) : Prop :=
  ∃ s ∈ sweep.nodes tree, DoomedIn tree s d

theorem mem_nodes : s ∈ sweep.nodes tree ↔
    s ∈ tree.arena.children tree.root ∧ tree.arena.kind? s = some .attributeSection := by
  show s ∈ tree.arena.childrenOfKind tree.root .attributeSection ↔ _
  unfold Arena.childrenOfKind
  rw [List.mem_filter, beq_iff_eq]

theorem mem_attributes {a : Arena} : i ∈ a.attributes s ↔
    i ∈ a.children s ∧ a.kind? i = some .attributeUse := by
  unfold Arena.attributes Arena.childrenOfKind
  rw [List.mem_filter, beq_iff_eq]

theorem DoomedIn.within (h : DoomedIn tree s d) (hlinks : tree.arena.WellLinked) :
    tree.arena.Within s d := by
  obtain ⟨-, -, ⟨hd, -⟩ | ⟨rfl, -⟩⟩ := h
  · exact .child .self (hlinks.listed_iff.mp (mem_attributes.mp hd).1)
  · exact .self

/-! ## Cleaning one section -/

/-- What has been removed after some attributes of a section have had their
turn, if `tops` had been removed before. -/
def Gone (tree : SyntaxTree) (rule : SyntaxTree → NodeIndex → Bool) (tops : NodeIndex → Prop)
    (done : List NodeIndex) (d : NodeIndex) : Prop :=
  tops d ∨ (d ∈ done ∧ rule tree d = true)

variable {tops : NodeIndex → Prop} {done rest : List NodeIndex}

theorem gone_skip (hother : rule tree i = false) (d : NodeIndex) :
    Gone tree rule tops done d ↔ Gone tree rule tops (done ++ [i]) d := by
  unfold Gone
  rw [List.mem_append, List.mem_singleton]
  constructor
  · rintro (hd | ⟨hd, hmatch⟩)
    · exact .inl hd
    · exact .inr ⟨.inl hd, hmatch⟩
  · rintro (hd | ⟨hd | rfl, hmatch⟩)
    · exact .inl hd
    · exact .inr ⟨hd, hmatch⟩
    · rw [hother] at hmatch
      cases hmatch

theorem gone_take (hmatch : rule tree i = true) (d : NodeIndex) :
    Gone tree rule tops done d ∨ d = i ↔ Gone tree rule tops (done ++ [i]) d := by
  unfold Gone
  rw [List.mem_append, List.mem_singleton]
  constructor
  · rintro ((hd | ⟨hd, hdmatch⟩) | rfl)
    · exact .inl hd
    · exact .inr ⟨.inl hd, hdmatch⟩
    · exact .inr ⟨.inr rfl, hmatch⟩
  · rintro (hd | ⟨hd | rfl, hdmatch⟩)
    · exact .inl (.inl hd)
    · exact .inl (.inr ⟨hd, hdmatch⟩)
    · exact .inr rfl

section Visit

variable (hlinks : tree.arena.WellLinked) (hs : s ∈ sweep.nodes tree)

include hlinks hs

theorem isLive_of_within (hroot : tree.arena.isLive tree.root = true)
    (hx : tree.arena.Within s x) : tree.arena.isLive x = true := by
  rw [hx.isLive_eq hlinks]
  exact hlinks.child_live hroot (mem_nodes.mp hs).1

variable (htops : ∀ d, tops d → ∃ other, other ≠ s ∧
    tree.arena.parent? other = some tree.root ∧ tree.arena.Within other d)

include htops

/-- What has been removed from other sections is not in this one. -/
theorem apart_of_within (hd : tops d) (hx : tree.arena.Within s x) : ¬ tree.arena.Within d x := by
  obtain ⟨other, hne, hparent, hwithin⟩ := htops d hd
  have hsparent := hlinks.listed_iff.mp (mem_nodes.mp hs).1
  intro hw
  exact hlinks.siblings_apart hparent hsparent hne (hwithin.trans hw) hx

variable (hroot : tree.arena.isLive tree.root = true)

include hroot

/-- The subtree of an attribute that has not had its turn is still there. -/
theorem isLive_of_waiting (hlist : tree.arena.attributes s = done ++ i :: rest)
    (hb : tree.arena.Prunes (Gone tree rule tops done) b) (hx : tree.arena.Within i x) :
    b.isLive x = true := by
  have hnodup : (tree.arena.attributes s).Nodup := (hlinks.nodup s).filter _
  have hmem : ∀ j ∈ done ++ i :: rest, tree.arena.parent? j = some s := by
    intro j hj
    rw [← hlist] at hj
    exact hlinks.listed_iff.mp (mem_attributes.mp hj).1
  have hi := hmem i List.mem_append_cons_self
  have hsx : tree.arena.Within s x := .trans (.child .self hi) hx
  refine hb.isLive_of_apart (isLive_of_within hlinks hs hroot hsx) fun d hd => ?_
  rcases hd with hd | ⟨hd, -⟩
  · exact apart_of_within hlinks hs htops hd hsx
  · -- Another attribute of the section, which has had its turn.
    rw [hlist] at hnodup
    have hne : i ≠ d := by
      rintro rfl
      exact (List.nodup_append.mp hnodup).2.2 i hd i List.mem_cons_self rfl
    exact hlinks.siblings_apart hi (hmem d (List.mem_append_left _ hd)) hne hx

/-- The attributes of a section are removed as their rule says of the tree
before the sweep. -/
theorem turns_removeMatching (hrule : ruleFor? tree s = some rule) (rest : List NodeIndex) :
    ∀ done b, tree.arena.attributes s = done ++ rest →
      tree.arena.Prunes (Gone tree rule tops done) b →
      ∃ b', (removeMatching rule rest).Turns { tree with arena := b } { tree with arena := b' } ∧
        tree.arena.Prunes (Gone tree rule tops (tree.arena.attributes s)) b' := by
  obtain ⟨target, -, htarget⟩ := Option.bind_eq_some_iff.mp hrule
  induction rest with
  | nil =>
      intro done b hlist hb
      rw [List.append_nil] at hlist
      rw [hlist]
      exact ⟨b, .pure (), hb⟩
  | cons i rest ih =>
      intro done b hlist hb
      have hi : i ∈ tree.arena.attributes s := by
        rw [hlist]
        exact List.mem_append_cons_self
      -- All that the rule looks at is as it was before the sweep.
      have hthere : ∀ {x}, tree.arena.Within i x → b.isLive x = true :=
        isLive_of_waiting hlinks hs htops hroot hlist hb
      have hchildren : ∀ c ∈ tree.arena.children i, b.isLive c = true :=
        fun c hc => hthere (.child .self (hlinks.listed_iff.mp hc))
      have hsame : rule { tree with arena := b } i = rule tree i :=
        rule_eq hb.thins (hthere .self) hchildren hlinks htarget
      have hlist' : tree.arena.attributes s = (done ++ [i]) ++ rest := by
        rw [hlist, List.append_assoc]
        rfl
      simp only [removeMatching]
      rcases hmatch : rule tree i with _ | _
      · obtain ⟨b', hturns, hb'⟩ := ih (done ++ [i]) b hlist' (hb.congr (gone_skip hmatch))
        refine ⟨b', ?_, hb'⟩
        apply Turns.look_bind
        rw [hsame, hmatch]
        exact hturns
      · have hparent : b.parent? i = some s :=
          (hb.thins.hangs (hthere .self)).trans (hlinks.listed_iff.mp (mem_attributes.mp hi).1)
        have hcut := (hb.cut (hthere .self) hparent).congr (gone_take hmatch)
        have hremove := Arena.remove_eq_cut hb.thins.links (hthere .self) hparent
        obtain ⟨b', hturns, hb'⟩ := ih (done ++ [i]) (b.cut i) hlist' hcut
        refine ⟨b', ?_, hb'⟩
        apply Turns.look_bind
        rw [hsame, hmatch]
        apply Turns.look_bind
        exact .bind (.record _) fun _ => .bind (.edit hremove) fun _ => hturns

/-- The section is still there when its attributes have had their turn. -/
theorem isLive_section
    (hb : tree.arena.Prunes (Gone tree rule tops (tree.arena.attributes s)) b) :
    b.isLive s = true := by
  refine hb.isLive_of_apart (isLive_of_within hlinks hs hroot .self) fun d hd => ?_
  rcases hd with hd | ⟨hd, -⟩
  · exact apart_of_within hlinks hs htops hd .self
  · exact hlinks.not_within_parent (hlinks.listed_iff.mp (mem_attributes.mp hd).1)

/-- An attribute is left exactly if the rule does not hold of it. -/
theorem isLive_attribute_iff
    (hb : tree.arena.Prunes (Gone tree rule tops (tree.arena.attributes s)) b)
    (hi : i ∈ tree.arena.attributes s) : b.isLive i = true ↔ rule tree i = false := by
  have hparent := hlinks.listed_iff.mp (mem_attributes.mp hi).1
  have hwithin : tree.arena.Within s i := .child .self hparent
  constructor
  · intro hlive
    rw [Bool.eq_false_iff]
    intro hmatch
    exact ((hb.live_iff i).mp hlive).2 i (.inr ⟨hi, hmatch⟩) .self
  · intro hother
    refine hb.isLive_of_apart (isLive_of_within hlinks hs hroot hwithin) fun d hd hw => ?_
    rcases hd with hd | ⟨hd, hmatch⟩
    · exact apart_of_within hlinks hs htops hd hwithin hw
    · have hdparent := hlinks.listed_iff.mp (mem_attributes.mp hd).1
      have hne : d ≠ i := by
        rintro rfl
        rw [hother] at hmatch
        cases hmatch
      exact hlinks.siblings_apart hdparent hparent hne hw .self

theorem attributes_eq_nil_iff
    (hb : tree.arena.Prunes (Gone tree rule tops (tree.arena.attributes s)) b) :
    b.attributes s = [] ↔ ∀ i ∈ tree.arena.attributes s, rule tree i = true := by
  have hlist : b.attributes s = (tree.arena.attributes s).filter b.isLive :=
    hb.thins.childrenOfKind_eq (isLive_section hlinks hs htops hroot hb) .attributeUse
  rw [hlist, List.filter_eq_nil_iff]
  refine forall₂_congr fun i hi => ?_
  rw [isLive_attribute_iff hlinks hs htops hroot hb hi, Bool.not_eq_false]

/-- The section goes as well if the rule holds of each of its attributes. -/
theorem turns_removeIfEmpty (hrule : ruleFor? tree s = some rule)
    (hb : tree.arena.Prunes (Gone tree rule tops (tree.arena.attributes s)) b) :
    ∃ b', (removeIfEmpty s).Turns { tree with arena := b } { tree with arena := b' } ∧
      tree.arena.Prunes (fun d => tops d ∨ DoomedIn tree s d) b' := by
  have hempty := attributes_eq_nil_iff hlinks hs htops hroot hb
  by_cases hall : ∀ i ∈ tree.arena.attributes s, rule tree i = true
  · have hlive := isLive_section hlinks hs htops hroot hb
    have hparent : b.parent? s = some tree.root :=
      (hb.thins.hangs hlive).trans (hlinks.listed_iff.mp (mem_nodes.mp hs).1)
    refine ⟨b.cut s, ?_, (hb.cut hlive hparent).congr fun d => ?_⟩
    · unfold removeIfEmpty
      apply Turns.look_bind
      rw [hempty.mpr hall]
      exact .announce (Arena.remove_eq_cut hb.thins.links hlive hparent)
    · rw [doomedIn_iff hrule, and_iff_left hall, ← or_assoc]
      rfl
  · refine ⟨b, ?_, hb.congr fun d => ?_⟩
    · have hne : b.attributes s ≠ [] := mt hempty.mp hall
      unfold removeIfEmpty
      apply Turns.look_bind
      rw [List.isEmpty_eq_false_iff.mpr hne]
      exact .pure ()
    · -- The section stays, so `DoomedIn` is about its attributes alone.
      rw [doomedIn_iff hrule, iff_false_intro hall, and_false, or_false]
      rfl

/-- A section is cleaned as its rule says of the tree before the sweep. -/
theorem turns_visit (hb : tree.arena.Prunes tops b) :
    ∃ b', (AssemblyAttributes.visit s).Turns { tree with arena := b } { tree with arena := b' } ∧
      tree.arena.Prunes (fun d => tops d ∨ DoomedIn tree s d) b' := by
  have hsame : (b.attributeTarget? s).bind rule? = ruleFor? tree s := by
    rw [hb.thins.attributeTarget?]
    rfl
  rcases hrule : ruleFor? tree s with _ | rule
  · refine ⟨b, ?_, hb.congr fun d => ?_⟩
    · unfold AssemblyAttributes.visit
      apply Turns.look_bind
      rw [hsame, hrule]
      exact .pure 0
    · rw [iff_false_intro (not_doomedIn hrule), or_false]
  · have hthere : ∀ {x}, tree.arena.Within s x → b.isLive x = true := fun hx =>
      hb.isLive_of_apart (isLive_of_within hlinks hs hroot hx)
        fun d hd => apart_of_within hlinks hs htops hd hx
    have hlist : b.attributes s = tree.arena.attributes s := by
      show b.childrenOfKind s .attributeUse = _
      rw [hb.thins.childrenOfKind_eq (hthere .self)]
      refine List.filter_eq_self.mpr fun i hi => hthere (.child .self ?_)
      exact hlinks.listed_iff.mp (mem_attributes.mp hi).1
    have hnone : tree.arena.Prunes (Gone tree rule tops []) b :=
      hb.congr fun d => by simp [Gone]
    obtain ⟨b₁, hturns, hb₁⟩ :=
      turns_removeMatching hlinks hs htops hroot hrule _ [] b rfl hnone
    obtain ⟨b₂, hturns', hb₂⟩ := turns_removeIfEmpty hlinks hs htops hroot hrule hb₁
    refine ⟨b₂, ?_, hb₂⟩
    unfold AssemblyAttributes.visit
    apply Turns.look_bind
    rw [hsame, hrule]
    apply Turns.look_bind
    rw [hlist]
    exact .bind hturns fun _ => .bind hturns' fun _ => .pure 0

end Visit

/-- The sweep succeeds and removes what was doomed before it started. -/
theorem turns_sweep (hlinks : tree.arena.WellLinked)
    (hroot : tree.arena.isLive tree.root = true) :
    ∃ b, pass.run.Turns tree { tree with arena := b } ∧ tree.arena.Prunes (Doomed tree) b := by
  have hsweep : ∃ t, sweep.run.Turns tree t ∧ ∃ b, t = { tree with arena := b } ∧
      tree.arena.Prunes (fun d => ∃ s ∈ sweep.nodes tree, DoomedIn tree s d) b := by
    refine Sweep.turns_run
      (I := fun done t => ∃ b, t = { tree with arena := b } ∧
        tree.arena.Prunes (fun d => ∃ s ∈ done, DoomedIn tree s d) b)
      ?_ (fun _ _ => .pure ()) ⟨_, rfl, (Arena.Prunes.refl hlinks).congr fun d => ?_⟩
    · rintro done s rest hlist t ⟨b, rfl, hb⟩
      have hnodup : (done ++ s :: rest).Nodup := by
        rw [← hlist]
        exact (hlinks.nodup tree.root).filter _
      have hmem : ∀ other ∈ done ++ s :: rest, other ∈ sweep.nodes tree := by
        rw [hlist]
        exact fun _ hother => hother
      have hs := hmem s List.mem_append_cons_self
      have htops : ∀ d, (∃ other ∈ done, DoomedIn tree other d) → ∃ other, other ≠ s ∧
          tree.arena.parent? other = some tree.root ∧ tree.arena.Within other d := by
        rintro d ⟨other, hother, hd⟩
        refine ⟨other, ?_, ?_, hd.within hlinks⟩
        · rintro rfl
          exact (List.nodup_append.mp hnodup).2.2 other hother other List.mem_cons_self rfl
        · have hothers := hmem other (List.mem_append_left _ hother)
          exact hlinks.listed_iff.mp (mem_nodes.mp hothers).1
      obtain ⟨b', hturns, hb'⟩ := turns_visit hlinks hs htops hroot hb
      refine ⟨_, hturns, b', rfl, hb'.congr fun d => ?_⟩
      simp only [List.mem_append, List.mem_singleton, or_and_right, exists_or, exists_eq_left]
    · simp
  obtain ⟨t, hturns, b, rfl, hb⟩ := hsweep
  exact ⟨b, hturns, hb⟩

end AssemblyAttributes

end Decompiled
