import Mathlib.Data.List.Basic
import Decompiled.Proofs.Arena.PreOrder
import Decompiled.Proofs.Arena.Reachable
import Decompiled.SyntaxTree

/-!
# Walks as a recursion

A walk keeps a stack and asks again and again for the next node. In an arena that
can be built it comes to an end, and what it lists is what the obvious recursion
over child lists would list: a node, and then the lists of its children.

* `Arena.Iterates`: what a walk hands out until it has no more.
* `Arena.ListsBelow`: the recursion, as an equation.
* `Arena.Walk.eq_flatMap`: only one function satisfies it.
* `SyntaxTree.walks_recurse`: walks do, and what follows for filtered walks.
-/

namespace Decompiled

namespace Arena

variable {a : Arena} {i : NodeIndex} {stack stack' listed listed' : List NodeIndex}
  {f : NodeIndex → List NodeIndex}

/-- `Iterates a stack listed`: a walk from a stack hands out the listed nodes one
after the other, and then it has no more. -/
inductive Iterates (a : Arena) : List NodeIndex → List NodeIndex → Prop
  | stop {stack : List NodeIndex} : a.nextLive? stack = none → Iterates a stack []
  | next {i : NodeIndex} {stack stack' listed : List NodeIndex} :
      a.nextLive? stack = some (i, stack') → Iterates a stack' listed →
        Iterates a stack (i :: listed)

/-- `f` lists nothing at the index of no node or of a removed one, and elsewhere
the node itself and then what it lists at the children, in their order. -/
def ListsBelow (a : Arena) (f : NodeIndex → List NodeIndex) : Prop :=
  ∀ i, f i = if a.isLive i then i :: (a.children i).flatMap f else []

/-- The next node is the same from two stacks that only differ in indices to be
dropped. -/
theorem Iterates.of_nextLive? (h : a.Iterates stack listed)
    (hsame : a.nextLive? stack' = a.nextLive? stack) : a.Iterates stack' listed := by
  cases h with
  | stop hnone => exact .stop (hsame.trans hnone)
  | next hsome hrest => exact .next (hsame.trans hsome) hrest

/-- A walk is handed out as it is listed, and comes to its end. -/
theorem Walk.iterates (h : a.Walk stack listed) : a.Iterates stack listed := by
  induction h with
  | done => exact .stop rfl
  | skip hdead _ ih =>
      apply ih.of_nextLive?
      rw [nextLive?_cons, hdead]
      rfl
  | visit hlive _ ih =>
      refine .next ?_ ih
      rw [nextLive?_cons, hlive]
      rfl

theorem Iterates.unique (h : a.Iterates stack listed) (h' : a.Iterates stack listed') :
    listed = listed' := by
  induction h generalizing listed' with
  | stop hnone =>
      cases h' with
      | stop _ => rfl
      | next hsome _ =>
          rw [hnone] at hsome
          cases hsome
  | next hsome _ ih =>
      cases h' with
      | stop hnone =>
          rw [hsome] at hnone
          cases hnone
      | next hsome' hrest =>
          rw [hsome] at hsome'
          cases hsome'
          rw [ih hrest]

/-- Whatever satisfies the recursion lists what a walk lists. -/
theorem Walk.eq_flatMap (h : a.Walk stack listed) (hf : a.ListsBelow f) :
    listed = stack.flatMap f := by
  induction h with
  | done => rfl
  | @skip top _ _ hdead _ ih =>
      have htop : f top = [] := by
        rw [hf, hdead]
        rfl
      rw [List.flatMap_cons, htop, List.nil_append, ih]
  | @visit top _ _ hlive _ ih =>
      have htop : f top = top :: (a.children top).flatMap f := by
        rw [hf, hlive]
        rfl
      rw [List.flatMap_cons, htop, ih, List.flatMap_append]
      rfl

/-- The walks from the entries of a stack, one after the other. -/
theorem walk_flatMap (hlinks : a.WellLinked) (stack : List NodeIndex) :
    a.Walk stack (stack.flatMap a.descendantsAndSelf) := by
  induction stack with
  | nil => exact .done
  | cons top rest ih => exact (walk_descendantsAndSelf hlinks top).append ih

theorem listsBelow_descendantsAndSelf (hlinks : a.WellLinked) :
    a.ListsBelow a.descendantsAndSelf := by
  intro i
  have horder := preOrder_descendantsAndSelf hlinks i
  split
  · rename_i hlive
    have hwalk : a.Walk [i] (i :: (a.children i).flatMap a.descendantsAndSelf) := by
      refine .visit hlive ?_
      rw [List.append_nil]
      exact walk_flatMap hlinks _
    exact horder.unique hwalk.preOrder
  · rename_i hdead
    exact horder.unique (.gone (Bool.eq_false_iff.mpr hdead) .nil)

/-- What a walk lists below its top is listed after its parent. -/
theorem parent_before (hlinks : a.WellLinked) {front back : List NodeIndex} {r x : NodeIndex}
    (hlist : a.descendantsAndSelf r = front ++ x :: back) (hne : x ≠ r) :
    ∃ p ∈ front, a.parent? x = some p := by
  have hmem : x ∈ a.descendantsAndSelf r := by simp [hlist]
  obtain ⟨hlive, hw⟩ := (mem_descendantsAndSelf hlinks).mp hmem
  obtain ⟨p, hp, hwp⟩ := hw.exists_parent hne
  refine ⟨p, ?_, hp⟩
  have hlisted := (mem_descendantsAndSelf hlinks).mpr ⟨hlive, hwp⟩
  have hpairwise := pairwise_descendantsAndSelf hlinks r
  rw [hlist, List.mem_append, List.mem_cons] at hlisted
  rw [hlist, List.pairwise_append, List.pairwise_cons] at hpairwise
  -- The parent is neither the node itself nor listed after it.
  rcases hlisted with hfront | rfl | hback
  · exact hfront
  · exact absurd .self (hlinks.not_within_parent hp)
  · exact absurd (.child .self hp) ((hpairwise.2.1.1 p hback).not_within hlinks)

end Arena

namespace SyntaxTree

/-- Each identifier has a name, and the names are listed as the identifiers are. -/
theorem map_some_identifierNames (tree : SyntaxTree) :
    tree.identifierNames.map some =
      (tree.arena.descendantsOfKind tree.root .identifier).map tree.arena.identifierName? := by
  have hnamed : ∀ x ∈ tree.arena.descendantsOfKind tree.root .identifier,
      tree.arena.identifierName? x = some ((tree.arena.identifierName? x).getD "") := by
    intro x hx
    have hkind := (Arena.mem_descendantsOfKind_iff.mp hx).2
    obtain ⟨name, hname⟩ :=
      Option.isSome_iff_exists.mp (Arena.isSome_identifierName?_iff.mpr hkind)
    rw [hname, Option.getD_some]
  unfold identifierNames
  rw [List.filterMap_congr hnamed, List.filterMap_eq_map', List.map_map]
  exact List.map_congr_left fun x hx => (hnamed x hx).symm

/-- Walks through the arena of a tree that can be built. From each index a walk
comes to an end and hands out what the recursion over child lists gives, which
is nothing for an index without a live node. So it hands out the live nodes at
and below the index, each once and after its parent. The nodes of a kind are those
of the walk that are of the kind, in its order, and the names of a tree are the
names of its identifiers, all of them and in the same order. -/
theorem walks_recurse (tree : SyntaxTree) (hreachable : tree.arena.Reachable)
    (hfits : tree.arena.Fits) :
    let a := tree.arena
    (∀ r listed, a.Iterates [r] listed ↔ listed = a.descendantsAndSelf r) ∧
    (a.ListsBelow a.descendantsAndSelf ∧ ∀ f, a.ListsBelow f → f = a.descendantsAndSelf) ∧
    (∀ r, r = .none ∨ a.size ≤ r.toNat ∨ a.Removed r → a.descendantsAndSelf r = []) ∧
    (∀ r, (a.descendantsAndSelf r).Nodup ∧
      (∀ x, x ∈ a.descendantsAndSelf r ↔ a.isLive x = true ∧ a.Within r x) ∧
      ∀ front x back, a.descendantsAndSelf r = front ++ x :: back → x ≠ r →
        ∃ p ∈ front, a.parent? x = some p) ∧
    (∀ r kind, a.descendantsOfKind r kind =
      (a.descendantsAndSelf r).filter fun x => a.kind? x == some kind) ∧
    tree.identifierNames.map some =
      ((a.descendantsAndSelf tree.root).filter fun x => a.kind? x == some .identifier).map
        a.identifierName? := by
  intro a
  have hlinks := hreachable.wellLinked hfits
  have hrecurse := Arena.listsBelow_descendantsAndSelf hlinks
  have hiterates : ∀ r, a.Iterates [r] (a.descendantsAndSelf r) :=
    fun r => (Arena.walk_descendantsAndSelf hlinks r).iterates
  refine ⟨fun r listed => ⟨fun h => h.unique (hiterates r), ?_⟩, ⟨hrecurse, fun f hf => ?_⟩,
    fun r hr => ?_, fun r => ⟨Arena.nodup_descendantsAndSelf hlinks r, fun x => ?_, ?_⟩,
    fun r kind => rfl, map_some_identifierNames tree⟩
  · rintro rfl
    exact hiterates r
  · funext r
    rw [(Arena.walk_descendantsAndSelf hlinks r).eq_flatMap hf, List.flatMap_cons,
      List.flatMap_nil, List.append_nil]
  · have hdead : a.isLive r = false := by
      rw [← or_assoc, ← Arena.get?_eq_none_iff] at hr
      rcases hr with habsent | hgone
      · simp [Arena.isLive, habsent]
      · exact (Arena.removed_iff.mp hgone).2
    rw [hrecurse r, hdead]
    rfl
  · rw [Arena.mem_descendantsAndSelf hlinks]
    exact and_congr_left fun hw => by rw [hw.isLive_eq hlinks]
  · exact fun front x back => Arena.parent_before hlinks

/-- A namespace with two types, of which the second is removed and the first has a
nested type that came after a type beside the namespace. -/
def prunedTree : SyntaxTree where
  arena := Arena.build
    [.addRoot .compilationUnit, .addNamespace ⟨0⟩ "N", .addTypeDeclaration ⟨1⟩ .classType "A",
      .addTypeDeclaration ⟨1⟩ .classType "B", .addTypeDeclaration ⟨0⟩ .classType "C",
      .addTypeDeclaration ⟨3⟩ .classType "D", .remove ⟨5⟩]
  root := ⟨0⟩
  annotations := .empty

/-- The nested type is walked before the one beside the namespace, and nothing is
walked at the removed type. -/
theorem walks_prunedTree :
    let a := prunedTree.arena
    (∀ listed, a.Iterates [⟨0⟩] listed ↔
      listed = [⟨0⟩, ⟨1⟩, ⟨2⟩, ⟨3⟩, ⟨4⟩, ⟨9⟩, ⟨10⟩, ⟨7⟩, ⟨8⟩]) ∧
    a.descendantsAndSelf ⟨5⟩ = [] ∧
    (∃ p ∈ [⟨0⟩, ⟨1⟩, ⟨2⟩, ⟨3⟩, ⟨4⟩], a.parent? ⟨9⟩ = some p) ∧
    prunedTree.identifierNames.map some = [some "N", some "A", some "D", some "C"] := by
  intro a
  have hreachable : a.Reachable := Arena.reachable_build _
  obtain ⟨hiterates, -, hempty, hlists, -, hnames⟩ :=
    walks_recurse prunedTree hreachable (by decide)
  have hlisted : a.descendantsAndSelf ⟨0⟩ =
      [⟨0⟩, ⟨1⟩, ⟨2⟩, ⟨3⟩, ⟨4⟩] ++ ⟨9⟩ :: [⟨10⟩, ⟨7⟩, ⟨8⟩] := by decide
  refine ⟨fun listed => ?_, hempty ⟨5⟩ (.inr (.inr ⟨_, rfl, rfl⟩)), ?_, hnames.trans (by decide)⟩
  · rw [hiterates, hlisted]
    rfl
  · exact (hlists ⟨0⟩).2.2 _ _ _ hlisted (by decide)

end SyntaxTree

end Decompiled
