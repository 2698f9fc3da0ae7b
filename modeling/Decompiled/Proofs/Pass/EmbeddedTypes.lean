import Decompiled.Proofs.Arena.Pruning
import Decompiled.Proofs.Run.Undisturbed

/-!
# What removing embedded types does

An undisturbed sweep over the type declarations of a compilation unit succeeds.
It prunes the tree at helper types and at namespaces, and no helper type is left
below the root.

What it decides about a declaration depends on the other members of the
namespace alone. So it removes the same from a tree of which some region is
gone already, if the region was not cut out of a namespace.

* `EmbeddedTypes.dropAll`: the arena that the sweep leaves.
* `EmbeddedTypes.turns_sweep`: the sweep succeeds and leaves it.
* `EmbeddedTypes.Beside`: two sweeps side by side, one of them with a region gone.
-/

namespace Decompiled

open Work

namespace EmbeddedTypes

variable {tree : SyntaxTree} {a b t : Arena} {i p x : NodeIndex}

/-- What goes with a helper type: its namespace if it is the only member, and
otherwise nothing but itself. -/
def target (a : Arena) (i : NodeIndex) : NodeIndex :=
  match a.parent? i with
  | some p => if isSingleMemberNamespace a p then p else i
  | none => i

/-- The arena after a declaration has been looked at. -/
def dropAt (tree : SyntaxTree) (a : Arena) (i : NodeIndex) : Arena :=
  if a.isLive i && isHelper tree i then a.cut (target a i) else a

/-- The arena after all declarations have been looked at. -/
def dropAll (tree : SyntaxTree) : Arena :=
  (sweep.nodes tree).foldl (dropAt tree) tree.arena

theorem dropAt_of_helper (hlive : a.isLive i = true) (hhelper : isHelper tree i = true) :
    dropAt tree a i = a.cut (target a i) := by
  unfold dropAt
  rw [hlive, hhelper]
  rfl

theorem dropAt_of_not_live (hdead : a.isLive i = false) : dropAt tree a i = a := by
  unfold dropAt
  rw [hdead]
  rfl

theorem dropAt_of_not_helper (hother : isHelper tree i = false) : dropAt tree a i = a := by
  unfold dropAt
  rw [hother, Bool.and_false]
  rfl

theorem target_of_parent (hp : a.parent? i = some p) :
    target a i = if isSingleMemberNamespace a p then p else i := by
  unfold target
  rw [hp]

/-- Only namespaces go with their member. -/
theorem target_cases (hp : a.parent? i = some p) :
    target a i = i ∨ target a i = p ∧ a.kind? p = some .namespaceDeclaration := by
  rw [target_of_parent hp]
  split
  · rename_i hsingle
    unfold isSingleMemberNamespace at hsingle
    rw [Bool.and_eq_true, beq_iff_eq] at hsingle
    exact .inr ⟨rfl, hsingle.1⟩
  · exact .inl rfl

theorem within_target (hp : a.parent? i = some p) : a.Within (target a i) i := by
  rcases target_cases hp with heq | ⟨heq, -⟩
  · rw [heq]
    exact .self
  · rw [heq]
    exact .child .self hp

/-- A helper is removed with what goes with it, if this is below another node. -/
theorem turns_visit (hlinks : tree.arena.WellLinked)
    (hparent : tree.arena.isLive i = true → isHelper tree i = true →
      ∃ p, tree.arena.parent? i = some p ∧
        ∃ q, tree.arena.parent? (target tree.arena i) = some q) :
    (EmbeddedTypes.visit i).Turns tree
      { tree with arena := dropAt tree tree.arena i } := by
  unfold EmbeddedTypes.visit dropAt
  apply Turns.look_bind
  rcases hlive : tree.arena.isLive i with _ | _
  · exact .pure 0
  rcases hhelper : isHelper tree i with _ | _
  · exact .pure 0
  obtain ⟨p, hp, q, hq⟩ := hparent hlive hhelper
  have htarget : tree.arena.isLive (target tree.arena i) = true := by
    rw [← (within_target hp).isLive_eq hlinks, hlive]
  have hremove := Arena.remove_eq_cut hlinks htarget hq
  refine .bind ?_ fun _ => .pure 0
  show (removeHelper i).Turns tree { tree with arena := tree.arena.cut (target tree.arena i) }
  rw [target_of_parent hp] at hremove ⊢
  unfold removeHelper
  apply Turns.look_bind
  rw [hp]
  apply Turns.look_bind
  exact .bind (.record _) fun _ => .edit hremove

/-! ## The whole sweep -/

/-- What is known of the arena when the declarations of a list have been looked
at. -/
structure Dropped (tree : SyntaxTree) (done : List NodeIndex) (b : Arena) : Prop where
  eq : b = done.foldl (dropAt tree) tree.arena
  /-- Types and namespaces are removed, each with its subtree. -/
  prunes : ∃ tops, tree.arena.Prunes tops b ∧ ∀ d, tops d →
    tree.arena.kind? d = some .typeDeclaration ∨
      tree.arena.kind? d = some .namespaceDeclaration
  clean : ∀ j ∈ done, b.isLive j = true → isHelper tree j = false

theorem Dropped.start (hlinks : tree.arena.WellLinked) : Dropped tree [] tree.arena where
  eq := rfl
  prunes := ⟨_, .refl hlinks, fun _ habs => habs.elim⟩
  clean := fun _ habs => nomatch habs

theorem Dropped.foldl_eq {done : List NodeIndex} (h : Dropped tree done b) (i : NodeIndex) :
    dropAt tree b i = (done ++ [i]).foldl (dropAt tree) tree.arena := by
  rw [List.foldl_append, ← h.eq]
  rfl

/-- A declaration that is no live helper stays. -/
theorem Dropped.skip {done : List NodeIndex} (h : Dropped tree done b)
    (hother : b.isLive i = true → isHelper tree i = false) :
    Dropped tree (done ++ [i]) (dropAt tree b i) := by
  have hsame : dropAt tree b i = b := by
    rcases hlive : b.isLive i with _ | _
    · exact dropAt_of_not_live hlive
    · exact dropAt_of_not_helper (hother hlive)
  have heq := h.foldl_eq i
  rw [hsame] at heq ⊢
  refine ⟨heq, h.prunes, fun j hj hlive => ?_⟩
  rcases List.mem_append.mp hj with hj | hj
  · exact h.clean j hj hlive
  · rw [List.mem_singleton.mp hj] at hlive ⊢
    exact hother hlive

/-- Whatever is below a compilation unit and is none itself has a parent. -/
theorem parent_of_within (hunit : tree.arena.kind? tree.root = some .compilationUnit)
    {kind : NodeKind} (hw : tree.arena.Within tree.root i)
    (hkind : tree.arena.kind? i = some kind) (hne : kind ≠ .compilationUnit) :
    ∃ p, tree.arena.parent? i = some p ∧ tree.arena.Within tree.root p := by
  refine hw.exists_parent ?_
  rintro rfl
  rw [hunit] at hkind
  exact hne (Option.some.inj hkind).symm

section Sweep

variable (hlinks : tree.arena.WellLinked)
  (hunit : tree.arena.kind? tree.root = some .compilationUnit)

include hlinks hunit

/-- A live declaration, and what goes with it, is below another node as long as
only subtrees have been cut off. -/
theorem parent_of_target (hthins : tree.arena.Thins b) (hi : i ∈ sweep.nodes tree)
    (hlive : b.isLive i = true) :
    ∃ p, b.parent? i = some p ∧ ∃ q, b.parent? (target b i) = some q := by
  obtain ⟨-, hwithin, hkind⟩ := (Arena.mem_descendantsOfKind hlinks).mp hi
  obtain ⟨p, hp, hwp⟩ := parent_of_within hunit hwithin hkind (by decide)
  have hpb : b.parent? i = some p := (hthins.hangs hlive).trans hp
  refine ⟨p, hpb, ?_⟩
  rcases target_cases hpb with heq | ⟨heq, hpkind⟩
  · rw [heq]
    exact ⟨p, hpb⟩
  · rw [hthins.kind?] at hpkind
    obtain ⟨q, hq, -⟩ := parent_of_within hunit hwp hpkind (by decide)
    have hplive : b.isLive p = true := (hthins.links.together hpb).symm.trans hlive
    rw [heq]
    exact ⟨q, (hthins.hangs hplive).trans hq⟩

theorem Dropped.dropAt {done : List NodeIndex} (h : Dropped tree done b)
    (hi : i ∈ sweep.nodes tree) : Dropped tree (done ++ [i]) (dropAt tree b i) := by
  rcases hlive : b.isLive i with _ | _
  · refine h.skip fun habs => ?_
    rw [hlive] at habs
    cases habs
  rcases hhelper : isHelper tree i with _ | _
  · exact h.skip fun _ => hhelper
  obtain ⟨tops, hprunes, hkinds⟩ := h.prunes
  obtain ⟨p, hp, q, hq⟩ := parent_of_target hlinks hunit hprunes.thins hi hlive
  have htarget : b.isLive (target b i) = true := by
    rw [← (within_target hp).isLive_eq hprunes.thins.links, hlive]
  have heq := h.foldl_eq i
  rw [dropAt_of_helper hlive hhelper] at heq ⊢
  refine ⟨heq, ⟨_, hprunes.cut htarget hq, fun d hd => ?_⟩, fun j hj hjlive => ?_⟩
  · rcases hd with hd | rfl
    · exact hkinds d hd
    · rcases target_cases hp with heq | ⟨heq, hkind⟩
      · rw [heq]
        exact .inl ((Arena.mem_descendantsOfKind hlinks).mp hi).2.2
      · rw [heq, ← hprunes.thins.kind?]
        exact .inr hkind
  · obtain ⟨hjb, hout⟩ := (Arena.isLive_cut hprunes.thins.links htarget hq j).mp hjlive
    -- The helper itself is always in the subtree that goes.
    rcases List.mem_append.mp hj with hj | hj
    · exact h.clean j hj hjb
    · rw [List.mem_singleton.mp hj] at hout
      exact absurd (within_target hp) hout

/-- The sweep succeeds and removes types and namespaces until no helper type is
left. -/
theorem turns_sweep :
    pass.run.Turns tree { tree with arena := dropAll tree } ∧
      Dropped tree (sweep.nodes tree) (dropAll tree) := by
  have hsweep : ∃ t, sweep.run.Turns tree t ∧
      ∃ b, t = { tree with arena := b } ∧ Dropped tree (sweep.nodes tree) b := by
    refine Sweep.turns_run
      (I := fun done t => ∃ b, t = { tree with arena := b } ∧ Dropped tree done b)
      ?_ (fun _ _ => .pure ()) ⟨_, rfl, .start hlinks⟩
    rintro done i rest hlist t ⟨b, rfl, hb⟩
    have hi : i ∈ sweep.nodes tree := by
      rw [hlist]
      exact List.mem_append_cons_self
    obtain ⟨tops, hprunes, -⟩ := hb.prunes
    have hturns : (EmbeddedTypes.visit i).Turns { tree with arena := b }
        { tree with arena := EmbeddedTypes.dropAt tree b i } :=
      turns_visit hprunes.thins.links fun hlive _ =>
        parent_of_target hlinks hunit hprunes.thins hi hlive
    exact ⟨_, hturns, _, rfl, hb.dropAt hlinks hunit hi⟩
  obtain ⟨t, hturns, b, rfl, hb⟩ := hsweep
  have hall : b = dropAll tree := hb.eq
  exact hall ▸ ⟨hturns, hb⟩

/-- A live declaration below the root that the sweep leaves is no helper. -/
theorem isHelper_of_dropAll (hlive : (dropAll tree).isLive i = true)
    (hwithin : tree.arena.Within tree.root i)
    (hkind : tree.arena.kind? i = some .typeDeclaration) : isHelper tree i = false := by
  obtain ⟨-, hdropped⟩ := turns_sweep hlinks hunit
  obtain ⟨tops, hprunes, -⟩ := hdropped.prunes
  have hroot : tree.arena.isLive tree.root = true := by
    rw [← hwithin.isLive_eq hlinks]
    exact hprunes.thins.live hlive
  exact hdropped.clean i ((Arena.mem_descendantsOfKind hlinks).mpr ⟨hroot, hwithin, hkind⟩) hlive

end Sweep

/-- Where no live helper is listed, nothing is done. -/
theorem foldl_dropAt_eq {indices : List NodeIndex}
    (hnone : ∀ i ∈ indices, a.isLive i = true → isHelper tree i = false) :
    indices.foldl (dropAt tree) a = a := by
  induction indices with
  | nil => rfl
  | cons i rest ih =>
      have hsame : dropAt tree a i = a := by
        rcases hlive : a.isLive i with _ | _
        · exact dropAt_of_not_live hlive
        · exact dropAt_of_not_helper (hnone i List.mem_cons_self hlive)
      rw [List.foldl_cons, hsame]
      exact ih fun j hj => hnone j (List.mem_cons_of_mem _ hj)

/-! ## Two sweeps side by side -/

variable {gone : NodeIndex → Prop}

/-- `b` and `t` are what is left of one arena, and `t` lacks a region besides. -/
structure Beside (a : Arena) (gone : NodeIndex → Prop) (b t : Arena) : Prop where
  whole : a.Thins b
  rest : a.Thins t
  live_iff : ∀ x, t.isLive x = true ↔ b.isLive x = true ∧ ¬ gone x

/-- What is cut off from the whole may lie in the region. -/
theorem Beside.cut_whole (h : Beside a gone b t) {q : NodeIndex} (hlive : b.isLive i = true)
    (hq : b.parent? i = some q) (hi : gone i) : Beside a gone (b.cut i) t := by
  refine ⟨h.whole.trans (Arena.thins_cut h.whole.links i), h.rest, fun x => ?_⟩
  rw [Arena.isLive_cut h.whole.links hlive hq, h.live_iff]
  constructor
  · rintro ⟨hx, hkept⟩
    refine ⟨⟨hx, fun hw => ?_⟩, hkept⟩
    -- A node left in both arenas is not below one that is gone from the other.
    have hxt := (h.live_iff x).mpr ⟨hx, hkept⟩
    have hwt := (h.rest.within_iff hxt).mpr ((h.whole.within_iff hx).mp hw)
    rw [hwt.isLive_eq h.rest.links] at hxt
    exact ((h.live_iff i).mp hxt).2 hi
  · exact fun hx => ⟨hx.1.1, hx.2⟩

/-- What is left in both may be cut off from both. -/
theorem Beside.cut_both (h : Beside a gone b t) {q : NodeIndex} (hlive : t.isLive i = true)
    (hq : a.parent? i = some q) : Beside a gone (b.cut i) (t.cut i) := by
  have hblive := ((h.live_iff i).mp hlive).1
  refine ⟨h.whole.trans (Arena.thins_cut h.whole.links i),
    h.rest.trans (Arena.thins_cut h.rest.links i), fun x => ?_⟩
  rw [Arena.isLive_cut h.rest.links hlive ((h.rest.hangs hlive).trans hq),
    Arena.isLive_cut h.whole.links hblive ((h.whole.hangs hblive).trans hq)]
  constructor
  · rintro ⟨hxt, hout⟩
    obtain ⟨hx, hkept⟩ := (h.live_iff x).mp hxt
    refine ⟨⟨hx, fun hw => hout ?_⟩, hkept⟩
    exact (h.rest.within_iff hxt).mpr ((h.whole.within_iff hx).mp hw)
  · rintro ⟨⟨hx, hout⟩, hkept⟩
    have hxt := (h.live_iff x).mpr ⟨hx, hkept⟩
    refine ⟨hxt, fun hw => hout ?_⟩
    exact (h.whole.within_iff hx).mpr ((h.rest.within_iff hxt).mp hw)

section Beside

variable (hgone : ∀ {c p}, a.parent? c = some p → a.isLive c = true → gone c → ¬ gone p →
    a.kind? c ≠ some .typeDeclaration ∧ a.kind? p ≠ some .namespaceDeclaration)

include hgone

/-- A namespace outside the region has the same members in both. -/
theorem Beside.isSingleMemberNamespace_eq (h : Beside a gone b t) (hlinks : a.WellLinked)
    (hlive : t.isLive p = true) :
    isSingleMemberNamespace t p = isSingleMemberNamespace b p := by
  obtain ⟨hblive, hkept⟩ := (h.live_iff p).mp hlive
  unfold isSingleMemberNamespace
  rw [h.rest.kind?, h.whole.kind?]
  by_cases hkind : a.kind? p = some .namespaceDeclaration
  · have hchildren : t.children p = b.children p := by
      rw [h.rest.lists hlive, h.whole.lists hblive]
      apply List.filter_congr
      intro c hc
      -- The region does not begin at a member of a namespace.
      have hparent := hlinks.listed_iff.mp hc
      rw [Bool.eq_iff_iff, h.live_iff]
      refine ⟨And.left, fun hcb => ⟨hcb, fun hcgone => ?_⟩⟩
      exact (hgone hparent (h.whole.live hcb) hcgone hkept).2 hkind
    have hmembers : t.members p = b.members p := by
      rw [Arena.members_eq, Arena.members_eq, hchildren, h.rest.nameSlot?, h.whole.nameSlot?]
      apply List.filter_congr
      intro c _
      rw [h.rest.kind?, h.whole.kind?]
    rw [hmembers]
  · rw [beq_false_of_ne hkind, Bool.false_and, Bool.false_and]

theorem Beside.target_eq (h : Beside a gone b t) (hlinks : a.WellLinked)
    (hlive : t.isLive i = true) : target t i = target b i := by
  have hblive := ((h.live_iff i).mp hlive).1
  have hparents : t.parent? i = b.parent? i :=
    (h.rest.hangs hlive).trans (h.whole.hangs hblive).symm
  unfold target
  rw [hparents]
  rcases hp : b.parent? i with _ | p
  · rfl
  · have hplive : t.isLive p = true :=
      (h.rest.links.together (hparents.trans hp)).symm.trans hlive
    simp only
    rw [h.isSingleMemberNamespace_eq hgone hlinks hplive]

/-- Looking at a declaration keeps the two arenas side by side. -/
theorem Beside.dropAt (h : Beside a gone b t) (hlinks : a.WellLinked)
    (hkind : a.kind? i = some .typeDeclaration)
    (hparent : b.isLive i = true →
      ∃ p, b.parent? i = some p ∧ ∃ q, b.parent? (target b i) = some q) :
    Beside a gone (dropAt tree b i) (dropAt tree t i) := by
  rcases hlive : b.isLive i with _ | _
  · have hdead : t.isLive i = false := by
      rw [Bool.eq_false_iff]
      intro habs
      rw [((h.live_iff i).mp habs).1] at hlive
      cases hlive
    rwa [dropAt_of_not_live hlive, dropAt_of_not_live hdead]
  rcases hhelper : isHelper tree i with _ | _
  · rwa [dropAt_of_not_helper hhelper, dropAt_of_not_helper hhelper]
  obtain ⟨p, hp, q, hq⟩ := hparent hlive
  have htarget : b.isLive (target b i) = true := by
    rw [← (within_target hp).isLive_eq h.whole.links, hlive]
  rw [dropAt_of_helper hlive hhelper]
  rcases htlive : t.isLive i with _ | _
  · -- The declaration went with the region, and so did all that goes with it.
    have hi : gone i := by
      by_cases hi : gone i
      · exact hi
      · rw [(h.live_iff i).mpr ⟨hlive, hi⟩] at htlive
        cases htlive
    have hgoes : gone (target b i) := by
      rcases target_cases hp with heq | ⟨heq, -⟩
      · rwa [heq]
      · rw [heq]
        by_cases hpgone : gone p
        · exact hpgone
        · have hpa : a.parent? i = some p := (h.whole.hangs hlive).symm.trans hp
          exact absurd hkind (hgone hpa (h.whole.live hlive) hi hpgone).1
    rw [dropAt_of_not_live htlive]
    exact h.cut_whole htarget hq hgoes
  · have hsame := h.target_eq hgone hlinks htlive
    have hpt : t.parent? i = some p := by
      rw [h.rest.hangs htlive, ← h.whole.hangs hlive, hp]
    have hlivet : t.isLive (target b i) = true := by
      rw [← hsame, ← (within_target hpt).isLive_eq h.rest.links, htlive]
    rw [dropAt_of_helper htlive hhelper, hsame]
    exact h.cut_both hlivet ((h.whole.hangs htarget).symm.trans hq)

end Beside

theorem thins_dropAt (hlinks : a.WellLinked) (i : NodeIndex) : a.Thins (dropAt tree a i) := by
  unfold dropAt
  split
  · exact Arena.thins_cut hlinks _
  · exact .refl hlinks

/-- Looking at nodes that are gone does nothing. -/
theorem foldl_dropAt_filter (hlinks : b.WellLinked)
    (hsub : ∀ x, b.isLive x = true → t.isLive x = true) (indices : List NodeIndex) :
    (indices.filter t.isLive).foldl (dropAt tree) b = indices.foldl (dropAt tree) b := by
  induction indices generalizing b with
  | nil => rfl
  | cons i rest ih =>
      have hthins : b.Thins (dropAt tree b i) := thins_dropAt hlinks i
      have hrest := ih hthins.links fun x hx => hsub x (hthins.live hx)
      -- What is gone from `t` is gone from `b`, and stays so.
      rw [List.filter_cons, List.foldl_cons]
      split
      · rw [List.foldl_cons, hrest]
      · rename_i hgone
        have hdead : b.isLive i = false := by
          rw [Bool.eq_false_iff]
          exact fun habs => hgone (hsub i habs)
        rw [dropAt_of_not_live hdead] at hrest ⊢
        exact hrest

/-- A sweep over a tree of which a region is gone removes what it removes from
the whole tree, less the region. -/
theorem beside_dropAll (hlinks : tree.arena.WellLinked)
    (hunit : tree.arena.kind? tree.root = some .compilationUnit)
    (hgone : ∀ {c p}, tree.arena.parent? c = some p → tree.arena.isLive c = true → gone c →
      ¬ gone p → tree.arena.kind? c ≠ some .typeDeclaration ∧
        tree.arena.kind? p ≠ some .namespaceDeclaration)
    (hthins : tree.arena.Thins t) (hroot : t.isLive tree.root = true)
    (hlive : ∀ x, t.isLive x = true ↔ tree.arena.isLive x = true ∧ ¬ gone x) :
    Beside tree.arena gone (dropAll tree) (dropAll { tree with arena := t }) := by
  have hnodes : sweep.nodes { tree with arena := t } = (sweep.nodes tree).filter t.isLive :=
    hthins.descendantsOfKind_eq hlinks hroot .typeDeclaration
  have hall : dropAll { tree with arena := t } = (sweep.nodes tree).foldl (dropAt tree) t := by
    unfold dropAll
    rw [hnodes]
    exact foldl_dropAt_filter hthins.links (fun _ hx => hx) (sweep.nodes tree)
  rw [hall]
  refine List.foldl_rel ⟨.refl hlinks, hthins, hlive⟩ fun i hi b t h => ?_
  have hkind := ((Arena.mem_descendantsOfKind hlinks).mp hi).2.2
  exact h.dropAt hgone hlinks hkind (parent_of_target hlinks hunit h.whole hi)

/-- A sweep over what a sweep has left does nothing. -/
theorem dropAll_of_clean (hlinks : tree.arena.WellLinked)
    (hunit : tree.arena.kind? tree.root = some .compilationUnit) (hthins : tree.arena.Thins t)
    (hsub : ∀ x, t.isLive x = true → (dropAll tree).isLive x = true) :
    dropAll { tree with arena := t } = t := by
  refine foldl_dropAt_eq fun i hi hlive => ?_
  obtain ⟨-, hwithin, hkind⟩ := (Arena.mem_descendantsOfKind hthins.links).mp hi
  have hkind : tree.arena.kind? i = some .typeDeclaration := (hthins.kind? i).symm.trans hkind
  have hbelow := (hthins.within_iff hlive).mp hwithin
  have hother : isHelper tree i = false :=
    isHelper_of_dropAll hlinks hunit (hsub i hlive) hbelow hkind
  exact hother

end EmbeddedTypes

end Decompiled
