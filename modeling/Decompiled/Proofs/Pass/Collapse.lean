import Decompiled.Proofs.Arena.Reachable
import Decompiled.Proofs.Pass.EmbeddedTypes

/-!
# Which nodes go with the embedded types

A helper type goes, and so does a namespace whose last member is a helper if all
members before it go. The sweep removes exactly the subtrees of these nodes. It
decides about a namespace when it comes to the last member: by then all that
is to go from among the earlier ones is gone, since a walk lists what is further
left first.

* `EmbeddedTypes.Doomed`: the nodes that go, by recursion into namespaces.
* `EmbeddedTypes.isSingleMemberNamespace_iff`: what the sweep sees of this when
  it looks at a helper.
* `EmbeddedTypes.prunes_dropAt`: one visit extends what is removed by one helper.
* `EmbeddedTypes.removes_exactly`: the outcome of the whole pass.
* `EmbeddedTypes.namespace_left_empty_iff`: which namespaces lose all members and
  stay, since nothing looks at what is around a namespace that goes.
-/

namespace Decompiled

open Work

namespace EmbeddedTypes

variable {tree : SyntaxTree} {a b : Arena} {d i m p x : NodeIndex}
  {known known' : NodeIndex → Prop} {done rest : List NodeIndex}

/-- A live type declaration below the root that is known to be embedded. -/
structure Helper (tree : SyntaxTree) (i : NodeIndex) : Prop where
  live : tree.arena.isLive i = true
  below : tree.arena.Within tree.root i
  kind : tree.arena.kind? i = some .typeDeclaration
  known : isHelper tree i = true

/-- The nodes that go when some helpers are known: the helpers themselves, and
namespaces whose last member is one of them and whose other members go. -/
inductive Doomed (a : Arena) (known : NodeIndex → Prop) : NodeIndex → Prop
  | helper {i : NodeIndex} : known i → Doomed a known i
  | collapse {p last : NodeIndex} {before : List NodeIndex} :
      a.kind? p = some .namespaceDeclaration → a.members p = before ++ [last] → known last →
      (∀ m ∈ before, Doomed a known m) → Doomed a known p

theorem parent_of_last {last : NodeIndex} {before : List NodeIndex} (hlinks : a.WellLinked)
    (hmembers : a.members p = before ++ [last]) : a.parent? last = some p := by
  refine hlinks.parent_of_member ?_
  rw [hmembers]
  exact List.mem_append_cons_self

theorem parent_of_earlier {last : NodeIndex} {before : List NodeIndex} (hlinks : a.WellLinked)
    (hmembers : a.members p = before ++ [last]) (hm : m ∈ before) : a.parent? m = some p := by
  refine hlinks.parent_of_member ?_
  rw [hmembers]
  exact List.mem_append_left _ hm

/-- Whether a node goes depends on the helpers at and below it. -/
theorem Doomed.mono_within (h : Doomed a known d) (hlinks : a.WellLinked)
    (hsub : ∀ x, known x → a.Within d x → known' x) : Doomed a known' d := by
  induction h with
  | helper hknown => exact .helper (hsub _ hknown .self)
  | @collapse p last before hkind hmembers hlast _ ih =>
      have hbelow := parent_of_last hlinks hmembers
      refine .collapse hkind hmembers (hsub last hlast (.child .self hbelow)) fun m hm => ?_
      have hm' := parent_of_earlier hlinks hmembers hm
      exact ih m hm fun x hx hw => hsub x hx (.trans (.child .self hm') hw)

theorem Doomed.mono (h : Doomed a known d) (hlinks : a.WellLinked)
    (hsub : ∀ x, known x → known' x) : Doomed a known' d :=
  h.mono_within hlinks fun x hx _ => hsub x hx

/-- Whatever goes, a helper goes with it. -/
theorem Doomed.exists_known (h : Doomed a known d) (hlinks : a.WellLinked) :
    ∃ x, known x ∧ a.Within d x := by
  cases h with
  | helper hknown => exact ⟨d, hknown, .self⟩
  | @collapse _ last _ _ hmembers hlast _ =>
      exact ⟨last, hlast, .child .self (parent_of_last hlinks hmembers)⟩

/-- What goes and is no namespace is a helper. -/
theorem Doomed.known_of_kind (h : Doomed a known d)
    (hkind : a.kind? d ≠ some .namespaceDeclaration) : known d := by
  cases h with
  | helper hknown => exact hknown
  | collapse hnamespace _ _ _ => exact absurd hnamespace hkind

/-- A node is the last member of a namespace, and the others go. -/
def LastOf (a : Arena) (known : NodeIndex → Prop) (i p : NodeIndex) : Prop :=
  a.kind? p = some .namespaceDeclaration ∧
    ∃ before, a.members p = before ++ [i] ∧ ∀ m ∈ before, Doomed a known m

theorem doomed_iff : Doomed a known p ↔ known p ∨ ∃ last, known last ∧ LastOf a known last p := by
  constructor
  · intro h
    cases h with
    | helper hknown => exact .inl hknown
    | @collapse _ last before hkind hmembers hlast hbefore =>
        exact .inr ⟨last, hlast, hkind, before, hmembers, hbefore⟩
  · rintro (hknown | ⟨last, hlast, hkind, before, hmembers, hbefore⟩)
    · exact .helper hknown
    · exact .collapse hkind hmembers hlast hbefore

theorem LastOf.parent_eq (h : LastOf a known i p) (hlinks : a.WellLinked) :
    a.parent? i = some p := by
  obtain ⟨-, before, hmembers, -⟩ := h
  exact parent_of_last hlinks hmembers

theorem LastOf.doomed (h : LastOf a known i p) (hlinks : a.WellLinked)
    (hsub : ∀ x, known x → known' x) (hi : known' i) : Doomed a known' p := by
  obtain ⟨hkind, before, hmembers, hbefore⟩ := h
  exact .collapse hkind hmembers hi fun m hm => (hbefore m hm).mono hlinks hsub

/-- All other members are to the left of the last one. -/
theorem leftOf_last {last : NodeIndex} {before : List NodeIndex} (hlinks : a.WellLinked)
    (hmembers : a.members p = before ++ [last]) (hm : m ∈ before) : a.LeftOf m last := by
  have hpairwise := hlinks.pairwise_members p
  rw [hmembers] at hpairwise
  exact (List.pairwise_append.mp hpairwise).2.2 m hm last List.mem_cons_self

/-- The names of namespaces, where they have one, are identifiers. -/
def NamespacesNamed (a : Arena) : Prop :=
  ∀ p, a.isLive p = true → a.kind? p = some .namespaceDeclaration →
    ∀ slot ∈ a.nameSlot? p, a.kind? slot = some .identifier

/-- It suffices to look at each slot. -/
instance : Decidable (NamespacesNamed a) :=
  decidable_of_iff
    (∀ n < a.size, a.isLive (.ofCount n) = true →
      a.kind? (.ofCount n) = some .namespaceDeclaration →
      ∀ slot ∈ a.nameSlot? (.ofCount n), a.kind? slot = some .identifier)
    (by
      refine ⟨fun h p hlive => ?_, fun h n _ => h (.ofCount n)⟩
      exact Arena.of_slots (P := fun p => a.kind? p = some .namespaceDeclaration →
        ∀ slot ∈ a.nameSlot? p, a.kind? slot = some .identifier) h hlive)

/-- A type in a namespace is a member of it and not its name. -/
theorem mem_members (hnamed : NamespacesNamed a) (hlinks : a.WellLinked)
    (hp : a.parent? i = some p) (hlive : a.isLive p = true)
    (hpkind : a.kind? p = some .namespaceDeclaration)
    (hkind : a.kind? i = some .typeDeclaration) : i ∈ a.members p := by
  rw [Arena.members_eq, List.mem_filter]
  refine ⟨hlinks.listed_iff.mpr hp, ?_⟩
  rw [hkind, Bool.and_eq_true, bne_iff_ne, bne_iff_ne]
  refine ⟨fun hslot => ?_, by decide⟩
  have hident := hnamed p hlive hpkind i hslot.symm
  rw [hkind] at hident
  cases hident

/-- What goes is below the root. -/
theorem Doomed.within_root (h : Doomed tree.arena (Helper tree) d)
    (hlinks : tree.arena.WellLinked)
    (hunit : tree.arena.kind? tree.root = some .compilationUnit) :
    tree.arena.Within tree.root d := by
  cases h with
  | helper hknown => exact hknown.below
  | @collapse _ last _ _ hmembers hlast _ =>
      obtain ⟨p, hp, hw⟩ := parent_of_within hunit hlast.below hlast.kind (by decide)
      rw [parent_of_last hlinks hmembers] at hp
      exact Option.some.inj hp ▸ hw

/-! ## The helpers seen so far -/

/-- A helper has been looked at. -/
def Seen (tree : SyntaxTree) (done : List NodeIndex) (x : NodeIndex) : Prop :=
  Helper tree x ∧ x ∈ done

theorem Seen.more (h : Seen tree done x) : Seen tree (done ++ [i]) x :=
  ⟨h.1, List.mem_append_left _ h.2⟩

theorem seen_append : Seen tree (done ++ [i]) x ↔ Seen tree done x ∨ Helper tree x ∧ x = i := by
  unfold Seen
  rw [List.mem_append, List.mem_singleton, and_or_left]

section Listed

variable (hlinks : tree.arena.WellLinked) (hlist : sweep.nodes tree = done ++ i :: rest)

include hlinks hlist

/-- A helper has been looked at after its turn. -/
theorem seen_next (hhelper : isHelper tree i = true) : Seen tree (done ++ [i]) i := by
  have hi : i ∈ sweep.nodes tree := by
    rw [hlist]
    exact List.mem_append_cons_self
  obtain ⟨hroot, hbelow, hkind⟩ := (Arena.mem_descendantsOfKind hlinks).mp hi
  have hlive : tree.arena.isLive i = true := (hbelow.isLive_eq hlinks).trans hroot
  exact ⟨⟨hlive, hbelow, hkind, hhelper⟩, List.mem_append_cons_self⟩

theorem not_seen_next : ¬ Seen tree done i := by
  rintro ⟨-, hmem⟩
  exact (Arena.before_of_mem hlinks hlist hmem).ne hlinks rfl

/-- No node to the right of `i` goes before `i` is looked at. -/
theorem not_doomed_of_leftOf (hleft : tree.arena.LeftOf i m) :
    ¬ Doomed tree.arena (Seen tree done) m := by
  intro hdoomed
  obtain ⟨y, ⟨-, hy⟩, hmy⟩ := hdoomed.exists_known hlinks
  exact (Arena.before_of_mem hlinks hlist hy).not_leftOf hlinks (hleft.below .self hmy)

/-- With one more helper, the helper itself goes and perhaps the namespace around
it. -/
theorem doomed_append (h : Doomed tree.arena (Seen tree (done ++ [i])) d) :
    Doomed tree.arena (Seen tree done) d ∨ d = i ∨
      LastOf tree.arena (Seen tree done) i d := by
  induction h with
  | helper hknown =>
      rcases seen_append.mp hknown with hknown | ⟨-, heq⟩
      · exact .inl (.helper hknown)
      · exact .inr (.inl heq)
  | @collapse p last before hkind hmembers hlast _ ih =>
      -- The earlier members go already: none is `i` or around `i`, as the last
      -- one would then be to the right of `i`.
      have hbefore : ∀ m ∈ before, Doomed tree.arena (Seen tree done) m := by
        intro m hm
        have houtside : ¬ tree.arena.Within m i := by
          intro hw
          have hleft := (leftOf_last hlinks hmembers hm).below hw .self
          rcases seen_append.mp hlast with hseen | ⟨-, rfl⟩
          · exact not_doomed_of_leftOf hlinks hlist hleft (.helper hseen)
          · exact Arena.LeftOf.irrefl hlinks hleft
        rcases ih m hm with hdoomed | rfl | hlastof
        · exact hdoomed
        · exact absurd .self houtside
        · exact absurd (.child .self (hlastof.parent_eq hlinks)) houtside
      rcases seen_append.mp hlast with hseen | ⟨-, rfl⟩
      · exact .inl (.collapse hkind hmembers hseen hbefore)
      · exact .inr (.inr ⟨hkind, before, hmembers, hbefore⟩)

/-- What the sweep sees when it looks at a helper: its namespace has one member
left when it is the last one and all others go. -/
theorem isSingleMemberNamespace_iff (hnamed : NamespacesNamed tree.arena)
    (hprunes : tree.arena.Prunes (Doomed tree.arena (Seen tree done)) b)
    (hlive : b.isLive i = true) (hp : tree.arena.parent? i = some p)
    (hkind : tree.arena.kind? i = some .typeDeclaration) :
    isSingleMemberNamespace b p = true ↔ LastOf tree.arena (Seen tree done) i p := by
  have hplive : b.isLive p = true :=
    (hprunes.thins.links.together ((hprunes.thins.hangs hlive).trans hp)).symm.trans hlive
  unfold isSingleMemberNamespace LastOf
  rw [Bool.and_eq_true, beq_iff_eq, beq_iff_eq, hprunes.thins.kind?,
    hprunes.thins.members_eq hplive]
  refine and_congr_right fun hpkind => ⟨fun hone => ?_, ?_⟩
  · have hmem : i ∈ tree.arena.members p :=
      mem_members hnamed hlinks hp (hprunes.thins.live hplive) hpkind hkind
    obtain ⟨before, after, hmembers⟩ := List.append_of_mem hmem
    have hpairwise := hlinks.pairwise_members p
    have hdoomed : ∀ m ∈ tree.arena.members p, b.isLive m ≠ true →
        Doomed tree.arena (Seen tree done) m := fun m hm hgone =>
      hprunes.pruned_of_gone hlinks hplive (hlinks.parent_of_member hm) hgone
    rw [hmembers] at hone hpairwise hdoomed
    rw [List.filter_append, List.filter_cons, if_pos hlive, List.length_append,
      List.length_cons] at hone
    have hbefore : before.filter b.isLive = [] := List.eq_nil_of_length_eq_zero (by omega)
    have hafter : after.filter b.isLive = [] := List.eq_nil_of_length_eq_zero (by omega)
    rw [List.filter_eq_nil_iff] at hbefore hafter
    -- What comes after a helper that is looked at is still there.
    have hlast : after = [] := by
      rw [List.eq_nil_iff_forall_not_mem]
      intro m hm
      have hin : m ∈ before ++ i :: after :=
        List.mem_append_right _ (List.mem_cons_of_mem _ hm)
      obtain ⟨-, hlater, -⟩ := List.pairwise_append.mp hpairwise
      have hleft := (List.pairwise_cons.mp hlater).1 m hm
      exact not_doomed_of_leftOf hlinks hlist hleft (hdoomed m hin (hafter m hm))
    rw [hlast] at hmembers
    exact ⟨before, hmembers, fun m hm =>
      hdoomed m (List.mem_append_left _ hm) (hbefore m hm)⟩
  · rintro ⟨before, hmembers, hbefore⟩
    have hgone : before.filter b.isLive = [] := by
      rw [List.filter_eq_nil_iff]
      intro m hm hmlive
      exact ((hprunes.live_iff m).mp hmlive).2 m (hbefore m hm) .self
    rw [hmembers, List.filter_append, hgone, List.nil_append, List.filter_cons, hlive]
    rfl

/-- One visit extends what is removed by one helper, if what goes is below another
node. -/
theorem prunes_dropAt (hnamed : NamespacesNamed tree.arena)
    (hprunes : tree.arena.Prunes (Doomed tree.arena (Seen tree done)) b)
    (hparent : b.isLive i = true → isHelper tree i = true →
      ∃ p, b.parent? i = some p ∧ ∃ q, b.parent? (target b i) = some q) :
    tree.arena.Prunes (Doomed tree.arena (Seen tree (done ++ [i]))) (dropAt tree b i) := by
  have hmore : ∀ d, Doomed tree.arena (Seen tree done) d →
      Doomed tree.arena (Seen tree (done ++ [i])) d := fun d hd =>
    hd.mono hlinks fun _ => Seen.more
  rcases hhelper : isHelper tree i with _ | _
  · -- Nothing new is known.
    rw [dropAt_of_not_helper hhelper]
    refine hprunes.congr fun d => ⟨hmore d, fun hd => hd.mono hlinks fun x hx => ?_⟩
    rcases seen_append.mp hx with hseen | ⟨hnew, rfl⟩
    · exact hseen
    · rw [hnew.known] at hhelper
      cases hhelper
  have hseen := seen_next hlinks hlist hhelper
  have hkind := hseen.1.kind
  rcases hlive : b.isLive i with _ | _
  · -- The helper went with a node above it, and its namespace too.
    rw [dropAt_of_not_live hlive]
    obtain ⟨e, he, hei⟩ := hprunes.exists_top hseen.1.live (Bool.eq_false_iff.mp hlive)
    refine hprunes.more hmore fun d hd => ?_
    rcases doomed_append hlinks hlist hd with hold | rfl | hlast
    · exact ⟨d, hold, .self⟩
    · exact ⟨e, he, hei⟩
    · have hne : i ≠ e := by
        rintro rfl
        refine not_seen_next hlinks hlist (he.known_of_kind ?_)
        rw [hkind]
        decide
      exact ⟨e, he, hei.up hne (hlast.parent_eq hlinks)⟩
  obtain ⟨p, hp, q, hq⟩ := hparent hlive hhelper
  have hpa : tree.arena.parent? i = some p := (hprunes.thins.hangs hlive).symm.trans hp
  have hsingle := isSingleMemberNamespace_iff hlinks hlist hnamed hprunes hlive hpa hkind
  have htarget : b.isLive (target b i) = true := by
    rw [← (within_target hp).isLive_eq hprunes.thins.links, hlive]
  rw [dropAt_of_helper hlive hhelper]
  refine (hprunes.cut htarget hq).more (fun d hd => ?_) fun d hd => ?_
  · rcases hd with hold | rfl
    · exact hmore d hold
    · rw [target_of_parent hp]
      split
      · rename_i hone
        exact (hsingle.mp hone).doomed hlinks (fun _ => Seen.more) hseen
      · exact .helper hseen
  · rcases doomed_append hlinks hlist hd with hold | rfl | hlast
    · exact ⟨d, .inl hold, .self⟩
    · exact ⟨_, .inr rfl, hprunes.thins.within (within_target hp)⟩
    · have hdp : d = p := by
        have hd := hlast.parent_eq hlinks
        rw [hpa] at hd
        exact (Option.some.inj hd).symm
      refine ⟨_, .inr rfl, ?_⟩
      rw [target_of_parent hp, hsingle.mpr (hdp ▸ hlast), hdp]
      exact .self

end Listed

/-- Nothing goes before the first visit. -/
theorem prunes_start (hlinks : tree.arena.WellLinked) :
    tree.arena.Prunes (Doomed tree.arena (Seen tree [])) tree.arena := by
  refine (Arena.Prunes.refl hlinks).congr fun d => ⟨False.elim, fun hd => ?_⟩
  obtain ⟨x, ⟨-, hmem⟩, -⟩ := hd.exists_known hlinks
  cases hmem

/-- The sweep lists each helper. -/
theorem Helper.listed (h : Helper tree x) (hlinks : tree.arena.WellLinked) :
    x ∈ sweep.nodes tree := by
  have hroot : tree.arena.isLive tree.root = true := by
    rw [← h.below.isLive_eq hlinks]
    exact h.live
  exact (Arena.mem_descendantsOfKind hlinks).mpr ⟨hroot, h.below, h.kind⟩

/-- After the last visit all helpers have been looked at. -/
theorem doomed_seen_all (hlinks : tree.arena.WellLinked) :
    Doomed tree.arena (Seen tree (sweep.nodes tree)) d ↔ Doomed tree.arena (Helper tree) d :=
  ⟨fun hd => hd.mono hlinks fun _ => And.left,
    fun hd => hd.mono hlinks fun _ hx => ⟨hx, hx.listed hlinks⟩⟩

/-- The sweep removes the subtrees of all nodes that go, and nothing else. -/
theorem prunes_dropAll (hlinks : tree.arena.WellLinked)
    (hunit : tree.arena.kind? tree.root = some .compilationUnit)
    (hnamed : NamespacesNamed tree.arena) :
    tree.arena.Prunes (Doomed tree.arena (Helper tree)) (dropAll tree) := by
  -- The induction is on the nodes still to visit, whatever has been visited.
  have key : ∀ rest done b, sweep.nodes tree = done ++ rest →
      tree.arena.Prunes (Doomed tree.arena (Seen tree done)) b →
        tree.arena.Prunes (Doomed tree.arena (Seen tree (sweep.nodes tree)))
          (rest.foldl (dropAt tree) b) := by
    intro rest
    induction rest with
    | nil =>
        intro done b heq hprunes
        rw [List.append_nil] at heq
        rwa [heq]
    | cons i rest ih =>
        intro done b hlist hprunes
        have hi : i ∈ sweep.nodes tree := by
          rw [hlist]
          exact List.mem_append_cons_self
        refine ih (done ++ [i]) _ ?_ (prunes_dropAt hlinks hlist hnamed hprunes fun hlive _ =>
          parent_of_target hlinks hunit hprunes.thins hi hlive)
        rw [hlist, List.append_assoc]
        rfl
  exact (key _ [] _ rfl (prunes_start hlinks)).congr fun d => doomed_seen_all hlinks

/-- What a run of the pass that nobody cancels does to a tree of a compilation
unit. It succeeds. It removes the live nodes below the root that are, or are
below, a helper or a namespace that goes, and no others. What is left keeps what
it carries and its parent, and its children less those that are removed, in the
same order. -/
theorem removes_exactly {run : Run} (hrun : run.Undisturbed)
    (hreachable : run.tree.arena.Reachable) (hfits : run.tree.arena.Fits)
    (hunit : run.tree.arena.kind? run.tree.root = some .compilationUnit)
    (hnamed : NamespacesNamed run.tree.arena) :
    let before := run.tree.arena
    (pass.run run).1 = .ok () ∧
    ∃ after, (pass.run run).2.tree = { run.tree with arena := after } ∧
      (∀ x, after.isLive x = true ↔ before.isLive x = true ∧
        ¬ (before.Within run.tree.root x ∧
          ∃ d, Doomed before (Helper run.tree) d ∧ before.Within d x)) ∧
      ∀ x node, before.get? x = some node → after.isLive x = true →
        after.get? x = some { node with children := node.children.filter after.isLive } := by
  intro before
  have hlinks := hreachable.wellLinked hfits
  have hprunes := prunes_dropAll hlinks hunit hnamed
  obtain ⟨hturns, -⟩ := turns_sweep hlinks hunit
  obtain ⟨⟨⟩, hok, -, htree⟩ := hturns run hrun rfl
  refine ⟨hok, dropAll run.tree, htree, fun x => ?_, fun x node hget hlive => ?_⟩
  · rw [hprunes.live_iff]
    refine and_congr_right fun _ => ⟨?_, fun hapart d hd hw => hapart ⟨?_, d, hd, hw⟩⟩
    · rintro hapart ⟨-, d, hd, hw⟩
      exact hapart d hd hw
    · exact (hd.within_root hlinks hunit).trans hw
  · rw [hprunes.get?_eq hlive, hget]
    rfl

/-- A namespace that holds a namespace of one helper and then a helper, and one
that holds a helper and then a namespace without members. -/
def nestedUnit : SyntaxTree where
  arena := Arena.build
    [.addRoot .compilationUnit, .addNamespace ⟨0⟩ "A", .addNamespace ⟨1⟩ "B",
      .addTypeDeclaration ⟨3⟩ .classType "E", .addTypeDeclaration ⟨1⟩ .classType "F",
      .addNamespace ⟨0⟩ "C", .addTypeDeclaration ⟨9⟩ .classType "G", .addNamespace ⟨9⟩ "D"]
  root := ⟨0⟩
  annotations :=
    ⟨[], [(⟨5⟩, ⟨KnownNames.embedded, ⟨1⟩⟩), (⟨7⟩, ⟨KnownNames.embedded, ⟨1⟩⟩),
      (⟨11⟩, ⟨KnownNames.embedded, ⟨1⟩⟩)]⟩

theorem namespacesNamed_nestedUnit : NamespacesNamed nestedUnit.arena := by decide

/-- The outer one of two namespaces goes: a namespace that goes and a helper are
in it. -/
theorem doomed_nestedUnit : Doomed nestedUnit.arena (Helper nestedUnit) ⟨1⟩ := by
  have houter : nestedUnit.arena.Within nestedUnit.root ⟨1⟩ := .child .self (by decide)
  have hinner : nestedUnit.arena.Within nestedUnit.root ⟨3⟩ := .child houter (by decide)
  have hfirst : Helper nestedUnit ⟨5⟩ :=
    ⟨by decide, .child hinner (by decide), by decide, by decide⟩
  have hsecond : Helper nestedUnit ⟨7⟩ :=
    ⟨by decide, .child houter (by decide), by decide, by decide⟩
  have hmembers : nestedUnit.arena.members ⟨1⟩ = [⟨3⟩] ++ [⟨7⟩] := by decide
  refine .collapse (by decide) hmembers hsecond fun m hm => ?_
  have hnested : nestedUnit.arena.members ⟨3⟩ = [] ++ [⟨5⟩] := by decide
  rw [List.mem_singleton.mp hm]
  exact .collapse (by decide) hnested hfirst fun m hm => nomatch hm

/-- The namespace of a helper and an empty namespace loses the helper alone. -/
theorem removes_nestedUnit :
    let ran := pass.run (.start nestedUnit .fresh .never)
    ran.1 = .ok () ∧ ran.2.tree.arena.isLive ⟨1⟩ = false ∧
      ran.2.tree.arena.members ⟨9⟩ = [⟨13⟩] ∧
      ∀ x node, nestedUnit.arena.get? x = some node → ran.2.tree.arena.isLive x = true →
        ran.2.tree.arena.get? x = some
          { node with children := node.children.filter ran.2.tree.arena.isLive } := by
  have hrun : (Run.start nestedUnit .fresh .never).Undisturbed := ⟨rfl, rfl⟩
  obtain ⟨hok, after, htree, hlive, hleft⟩ := removes_exactly hrun (Arena.reachable_build _)
    (by decide) (by decide) namespacesNamed_nestedUnit
  have hbelow : nestedUnit.arena.Within nestedUnit.root ⟨1⟩ := .child .self (by decide)
  refine ⟨hok, ?_, by decide +kernel, ?_⟩
  · rw [htree, Bool.eq_false_iff]
    intro habs
    exact ((hlive ⟨1⟩).mp habs).2 ⟨hbelow, _, doomed_nestedUnit, .self⟩
  · rw [htree]
    exact hleft

/-! ## Namespaces that are left -/

/-- A namespace that had members and is left has none left exactly if its last
member was a namespace that goes and all others go: no helper was the last
member, so nothing looked at the namespace itself when it had one member. All
other namespaces keep a member. -/
theorem namespace_left_empty_iff {run : Run} (hrun : run.Undisturbed)
    (hreachable : run.tree.arena.Reachable) (hfits : run.tree.arena.Fits)
    (hunit : run.tree.arena.kind? run.tree.root = some .compilationUnit)
    (hnamed : NamespacesNamed run.tree.arena) :
    let before := run.tree.arena
    let after := (pass.run run).2.tree.arena
    (pass.run run).1 = .ok () ∧
    ∀ p, after.isLive p = true → after.kind? p = some .namespaceDeclaration →
      before.members p ≠ [] →
      (after.members p = [] ↔ ∃ others last, before.members p = others ++ [last] ∧
        (before.kind? last = some .namespaceDeclaration ∧
          Doomed before (Helper run.tree) last) ∧
        ∀ m ∈ others, Doomed before (Helper run.tree) m) := by
  intro before after
  have hlinks := hreachable.wellLinked hfits
  have hprunes := prunes_dropAll hlinks hunit hnamed
  obtain ⟨hturns, -⟩ := turns_sweep hlinks hunit
  obtain ⟨⟨⟩, hok, -, htree⟩ := hturns run hrun rfl
  refine ⟨hok, ?_⟩
  have hafter : after = dropAll run.tree := congrArg SyntaxTree.arena htree
  rw [hafter]
  intro p hlive hkind hsome
  rw [hprunes.thins.members_eq hlive, List.filter_eq_nil_iff]
  constructor
  · intro hnone
    have hgoes : ∀ m ∈ before.members p, Doomed before (Helper run.tree) m := fun m hm =>
      hprunes.pruned_of_gone hlinks hlive (hlinks.parent_of_member hm) (hnone m hm)
    obtain ⟨others, last, hmembers⟩ : ∃ others last, before.members p = others ++ [last] :=
      ⟨_, _, (List.dropLast_concat_getLast hsome).symm⟩
    rw [hmembers] at hgoes
    have hothers : ∀ m ∈ others, Doomed before (Helper run.tree) m := fun m hm =>
      hgoes m (List.mem_append_left _ hm)
    refine ⟨others, last, hmembers, ?_, hothers⟩
    have hlast := hgoes last List.mem_append_cons_self
    refine ⟨?_, hlast⟩
    cases hlast with
    | helper hknown =>
        -- With a helper as its last member the namespace would have gone.
        rw [hprunes.thins.kind?] at hkind
        have hgone := Doomed.collapse hkind hmembers hknown hothers
        exact absurd .self (((hprunes.live_iff p).mp hlive).2 p hgone)
    | collapse hnamespace _ _ _ => exact hnamespace
  · rintro ⟨others, last, hmembers, ⟨-, hlast⟩, hothers⟩ m hm hmlive
    rw [hmembers, List.mem_append, List.mem_singleton] at hm
    have hgoes : Doomed before (Helper run.tree) m := by
      rcases hm with hm | rfl
      · exact hothers m hm
      · exact hlast
    exact ((hprunes.live_iff m).mp hmlive).2 m hgoes .self

/-- A namespace in a namespace, with one helper in it. -/
def twofoldUnit : SyntaxTree where
  arena := Arena.build
    [.addRoot .compilationUnit, .addNamespace ⟨0⟩ "System", .addNamespace ⟨1⟩ "Runtime",
      .addTypeDeclaration ⟨3⟩ .classType "NullableAttribute"]
  root := ⟨0⟩
  annotations :=
    ⟨[], [(⟨5⟩, ⟨"System.Runtime.CompilerServices.NullableAttribute", ⟨1⟩⟩)]⟩

/-- All names and links of the unit are in order, and yet the outer namespace is
left without members. Nothing looks at it again when the inner one goes. -/
theorem twofoldUnit_left_empty :
    let a := twofoldUnit.arena
    let ran := pass.run (.start twofoldUnit .fresh .never)
    (a.Reachable ∧ a.Fits ∧ a.isLive twofoldUnit.root = true ∧
      a.parent? twofoldUnit.root = none ∧
      a.kind? twofoldUnit.root = some .compilationUnit) ∧
    (∀ n < a.size, a.kind? (.ofCount n) = some .namespaceDeclaration →
      (a.nameSlot? (.ofCount n)).any (a.kind? · = some .identifier) = true) ∧
    ran.1 = .ok () ∧
    ran.2.tree.arena.isLive ⟨1⟩ = true ∧ a.Within twofoldUnit.root ⟨1⟩ ∧
    ran.2.tree.arena.kind? ⟨1⟩ = some .namespaceDeclaration ∧
    a.members ⟨1⟩ = [⟨3⟩] ∧ ran.2.tree.arena.members ⟨1⟩ = [] := by
  have hreachable : twofoldUnit.arena.Reachable := Arena.reachable_build _
  obtain ⟨hturns, -⟩ := turns_sweep (hreachable.wellLinked (by decide)) (by decide)
  obtain ⟨⟨⟩, hok, -⟩ := hturns (.start twofoldUnit .fresh .never) ⟨rfl, rfl⟩ rfl
  exact ⟨⟨hreachable, by decide⟩, by decide, hok, by decide +kernel,
    .child .self (by decide), by decide +kernel, by decide, by decide +kernel⟩

/-- The two namespaces of the unit, as the general statement has it. -/
theorem namespace_left_empty_of_twofoldUnit :
    let after := (pass.run (.start twofoldUnit .fresh .never)).2.tree.arena
    after.isLive ⟨1⟩ = true ∧
    ∃ others last, twofoldUnit.arena.members ⟨1⟩ = others ++ [last] ∧
      (twofoldUnit.arena.kind? last = some .namespaceDeclaration ∧
        Doomed twofoldUnit.arena (Helper twofoldUnit) last) ∧
      ∀ m ∈ others, Doomed twofoldUnit.arena (Helper twofoldUnit) m := by
  have hrun : (Run.start twofoldUnit .fresh .never).Undisturbed := ⟨rfl, rfl⟩
  obtain ⟨-, hempty⟩ := namespace_left_empty_iff hrun (Arena.reachable_build _) (by decide)
    (by decide) (by decide)
  refine ⟨by decide +kernel, ?_⟩
  exact (hempty ⟨1⟩ (by decide +kernel) (by decide +kernel) (by decide)).mp (by decide +kernel)

end EmbeddedTypes

end Decompiled
