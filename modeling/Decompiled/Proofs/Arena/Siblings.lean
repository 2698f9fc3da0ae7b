import Decompiled.Proofs.Run.History

/-!
# From sibling to sibling

A node does not know its place among its siblings. The next one is found by going
up to the parent and searching for the node in its list, which finds the right
place only because the list holds the node once and no other list holds it. Removed
nodes keep their lists, so this is as true below them.

* `Arena.SiblingsFrom`: what going from sibling to sibling visits.
* `Arena.WellLinked.siblingsFrom`: from a child on, the rest of the list.
* `Arena.siblings_visited`: every list is visited from its first entry to its last,
  and a node that has been cut off has no sibling ever again.
-/

namespace Decompiled.Arena

variable {a b : Arena} {c i p : NodeIndex} {front back visited visited' : List NodeIndex}

/-- `SiblingsFrom a c visited`: going on from `c` to the next sibling, and from there
to the next, visits the listed nodes and then finds no more. -/
inductive SiblingsFrom (a : Arena) : NodeIndex → List NodeIndex → Prop
  | last {c : NodeIndex} : a.nextSibling? c = none → SiblingsFrom a c [c]
  | next {c d : NodeIndex} {visited : List NodeIndex} :
      a.nextSibling? c = some d → SiblingsFrom a d visited → SiblingsFrom a c (c :: visited)

theorem SiblingsFrom.unique (h : a.SiblingsFrom c visited) (h' : a.SiblingsFrom c visited') :
    visited = visited' := by
  induction h generalizing visited' with
  | last hnone =>
      cases h' with
      | last _ => rfl
      | next hsome _ =>
          rw [hnone] at hsome
          cases hsome
  | next hsome _ ih =>
      cases h' with
      | last hnone =>
          rw [hsome] at hnone
          cases hnone
      | next hsome' hrest =>
          rw [hsome] at hsome'
          cases hsome'
          rw [ih hrest]

theorem nextSibling?_of_parentless (hp : a.parent? i = none) : a.nextSibling? i = none := by
  unfold nextSibling?
  rw [hp]
  rfl

namespace WellLinked

/-- After an entry of a list comes the one in the next place. -/
theorem nextSibling?_getElem? (h : a.WellLinked) {n : Nat} (hc : (a.children p)[n]? = some c) :
    a.nextSibling? c = (a.children p)[n + 1]? := by
  obtain ⟨hn, hget⟩ := List.getElem?_eq_some_iff.mp hc
  have hlist : a.children p = (a.children p).take n ++ c :: (a.children p).drop (n + 1) := by
    rw [← hget, ← List.drop_eq_getElem_cons hn, List.take_append_drop]
  rw [h.nextSibling?_eq_head? hlist, List.head?_drop]

/-- From a child on, the rest of the list is visited. -/
theorem siblingsFrom (h : a.WellLinked) (hlist : a.children p = front ++ c :: back) :
    a.SiblingsFrom c (c :: back) := by
  have hnext := h.nextSibling?_eq_head? hlist
  induction back generalizing front c with
  | nil => exact .last hnext
  | cons d rest ih =>
      have hlist' : a.children p = (front ++ [c]) ++ d :: rest := by
        rw [hlist, List.append_assoc, List.singleton_append]
      exact .next hnext (ih hlist' (h.nextSibling?_eq_head? hlist'))

/-- A removal that goes through leaves its node without a parent. -/
theorem parent?_cut_self (h : a.WellLinked) (hdone : (Edit.remove i a).1 = .ok ()) :
    (a.cut i).parent? i = none := by
  rcases hlive : a.isLive i with _ | _
  · rw [Edit.remove_of_not_live hlive] at hdone
    cases hdone
  rcases hp : a.parent? i with _ | p
  · rw [cut_of_parentless hp, hp]
  · rw [parent?_cut h hlive hp, if_pos rfl]

end WellLinked

/-- A node that has no parent gets none later on. -/
theorem Precedes.parentless (h : a.Precedes b) (hthere : (a.get? i).isSome)
    (hp : a.parent? i = none) : b.parent? i = none := by
  rcases h.hung hthere with hsame | hnone
  · rw [hsame, hp]
  · exact hnone

/-- Siblings in an arena that can be built. After an entry of a child list, that of a
removed node as well, the next sibling is the entry in the next place, and the last
one has none; so going on from the first entry visits exactly the list, in its order,
and stops. An index without a slot and a node below none have no next sibling. After
a removal that goes through, its node has none, whatever is done from then on. -/
theorem siblings_visited (hreachable : a.Reachable) (hfits : a.Fits) :
    (∀ p n c, (a.children p)[n]? = some c → a.nextSibling? c = (a.children p)[n + 1]?) ∧
    (∀ p first rest, a.children p = first :: rest →
      ∀ visited, a.SiblingsFrom first visited ↔ visited = a.children p) ∧
    (∀ i, i = .none ∨ a.size ≤ i.toNat → a.nextSibling? i = none) ∧
    (∀ i node, a.get? i = some node → node.parent = .none → a.nextSibling? i = none) ∧
    ∀ i b, (Edit.remove i a).1 = .ok () → (Edit.remove i a).2.Later b → b.Fits →
      b.nextSibling? i = none := by
  have hlinks := hreachable.wellLinked hfits
  refine ⟨fun p n c => hlinks.nextSibling?_getElem?, fun p first rest hlist visited => ?_,
    fun i hout => ?_, fun i node hget hnone => ?_, fun i b hdone hlater hfitsb => ?_⟩
  · have hwhole : a.SiblingsFrom first (a.children p) := by
      rw [hlist]
      exact hlinks.siblingsFrom (hlist.trans (List.nil_append _).symm)
    refine ⟨fun h => h.unique hwhole, ?_⟩
    rintro rfl
    exact hwhole
  · refine nextSibling?_of_parentless ?_
    unfold parent?
    rw [get?_eq_none_iff.mpr hout]
    rfl
  · refine nextSibling?_of_parentless ?_
    rw [parent?_of_get? hget, hnone]
    rfl
  · obtain ⟨-, hkeeps⟩ := hlater.keepsHistory
    have hthere : ((a.cut i).get? i).isSome := by
      rw [isSome_get?_congr (size_cut a i)]
      rcases hget : a.get? i with _ | node
      · have hdead : a.isLive i = false := by simp [isLive, hget]
        rw [Edit.remove_of_not_live hdead] at hdone
        cases hdone
      · rfl
    have hparentless := hlinks.parent?_cut_self hdone
    exact nextSibling?_of_parentless
      ((hkeeps hfitsb (hlinks.cut i)).2.parentless hthere hparentless)

/-- Of three types in a namespace the second is removed, and then the namespace. Its
name and the types that were left in it are siblings still. The type removed first is
none of them, also when a type has been added elsewhere. -/
theorem siblings_of_removed_namespace :
    let before := build
      [.addRoot .compilationUnit, .addNamespace ⟨0⟩ "N", .addTypeDeclaration ⟨1⟩ .classType "A",
        .addTypeDeclaration ⟨1⟩ .classType "B", .addTypeDeclaration ⟨1⟩ .classType "C"]
    let space := (Operation.remove ⟨1⟩).apply (before.cut ⟨5⟩)
    let after := (Operation.addTypeDeclaration ⟨0⟩ .classType "D").apply space
    before.nextSibling? ⟨5⟩ = some ⟨7⟩ ∧ after.children ⟨1⟩ = [⟨2⟩, ⟨3⟩, ⟨7⟩] ∧
      (∀ visited, after.SiblingsFrom ⟨2⟩ visited ↔ visited = [⟨2⟩, ⟨3⟩, ⟨7⟩]) ∧
      after.nextSibling? ⟨1⟩ = none ∧ after.nextSibling? ⟨5⟩ = none := by
  intro before space after
  have hbefore : before.Reachable := reachable_build _
  have hcut : (before.cut ⟨5⟩).Reachable := .step (.remove ⟨5⟩) hbefore
  have hspace : space.Reachable := .step (.remove ⟨1⟩) hcut
  have hafter : after.Reachable := .step (.addTypeDeclaration ⟨0⟩ .classType "D") hspace
  have hlater : (before.cut ⟨5⟩).Later after :=
    .operation (.addTypeDeclaration ⟨0⟩ .classType "D") (.operation (.remove ⟨1⟩) .now)
  have hlist : after.children ⟨1⟩ = [⟨2⟩, ⟨3⟩, ⟨7⟩] := by decide
  obtain ⟨hnext, -, -, -, hgone⟩ := siblings_visited hbefore (by decide)
  obtain ⟨-, hvisited, -, hparentless, -⟩ := siblings_visited hafter (by decide)
  refine ⟨hnext ⟨1⟩ 2 ⟨5⟩ (by decide), hlist, fun visited => ?_, ?_, ?_⟩
  · rw [hvisited ⟨1⟩ ⟨2⟩ [⟨3⟩, ⟨7⟩] hlist, hlist]
  · exact hparentless ⟨1⟩ ⟨.namespaceDeclaration ⟨2⟩, .none, [⟨2⟩, ⟨3⟩, ⟨7⟩], true⟩ (by decide) rfl
  · exact hgone ⟨5⟩ after rfl hlater (by decide)

end Decompiled.Arena
