import Decompiled.Proofs.Arena.PreOrder
import Decompiled.Proofs.Arena.Reachable
import Decompiled.Proofs.Pass.Settled

/-!
# What escaping identifiers changes and tells

The pass over identifiers needs nothing of its tree but that the tree can be
built: the root may be any node, a removed one or none at all. Slot by slot, the
identifiers at and below the root get their escaped names and all else stays
what it is. The log tells which names changed, in pre-order.

* `Arena.Escapes.get?_of_mem`: a slot whose name is escaped.
* `EscapeIdentifiers.yields_again`: a second run changes nothing.
* `EscapeIdentifiers.renames_exactly`: all that a run does and tells.
-/

namespace Decompiled

open Work

namespace Arena.Escapes

variable {a b : Arena} {x : NodeIndex} {node : Node} {listed : List NodeIndex}

/-- A slot that is not listed holds the node that it held. -/
theorem get?_of_not_mem (h : Escapes a listed b) (hmem : x ∉ listed) :
    b.get? x = a.get? x := by
  have hdata := h.carries x
  rw [if_neg hmem] at hdata
  exact get?_eq_of_views (isSome_get?_congr h.size x) (h.live x) hdata (h.parent x) (h.lists x)

/-- A slot that is listed holds its node with the name escaped. -/
theorem get?_of_mem (h : Escapes a listed b) (hmem : x ∈ listed) (hget : a.get? x = some node) :
    b.get? x = some { node with data := node.data.escaped } := by
  apply get?_of_views
  · rw [h.live, isLive_of_get? hget]
  · rw [h.carries, if_pos hmem, data?_of_get? hget, Option.map_some]
  · rw [h.parent, parent?_of_get? hget]
  · rw [h.lists, children_of_get? hget]

end Arena.Escapes

namespace EscapeIdentifiers

variable {tree : SyntaxTree} {b : Arena}

/-- When the names have been escaped there is nothing left to do or to tell. -/
theorem yields_again {spans : List Span} (hlinks : tree.arena.WellLinked)
    (hb : tree.arena.Escapes (tree.arena.descendantsOfKind tree.root .identifier) b) :
    pass.run.Yields { tree with arena := b } spans () { tree with arena := b }
      [⟨.escapedIdentifiers 0, spans⟩] := by
  have hthins := hb.thins hlinks
  have hrests : ∀ i ∈ sweep.nodes { tree with arena := b },
      StandardPass.escapeIdentifiers.Rests { tree with arena := b } i := by
    intro i hi
    obtain ⟨hroot, hwithin, -⟩ := (Arena.mem_descendantsOfKind hthins.links).mp hi
    have hbefore := hthins.within hwithin
    have hlive : tree.arena.isLive i = true := by
      rw [hbefore.isLive_eq hlinks]
      exact hthins.live hroot
    exact rests_of_escaped (hb.data?_of_within hlinks hlive hbefore)
  apply Yields.look_bind
  exact .quiet_bind (StandardPass.yields_of_rests hrests 0) (.record _)

/-- Other nodes than identifiers have no name to tell of. -/
theorem filterMap_renaming? (a : Arena) (root : NodeIndex) :
    (a.descendantsOfKind root .identifier).filterMap (renaming? a) =
      (a.descendantsAndSelf root).filterMap (renaming? a) := by
  unfold Arena.descendantsOfKind
  rw [List.filterMap_filter]
  refine List.filterMap_congr fun x _ => ?_
  split
  · rfl
  · rename_i hkind
    exact (renaming?_of_kind fun habs => hkind (beq_iff_eq.mpr habs)).symm

/-- All that a run of the pass does that nobody cancels, for a tree that can be
built and any root. It succeeds. Each live identifier at or below the root gets
its escaped name, and every other slot holds what it held; so do the root and the
annotations. The names that changed are told in pre-order, then their number. A
run over the tree that is left changes nothing and tells that it changed none. -/
theorem renames_exactly {run : Run} (hrun : run.Undisturbed)
    (hreachable : run.tree.arena.Reachable) (hfits : run.tree.arena.Fits) :
    let before := run.tree.arena
    (pass.run run).1 = .ok () ∧
    ∃ after listed, (pass.run run).2.tree = { run.tree with arena := after } ∧
      (before.PreOrder [run.tree.root] listed ∧ listed.Nodup ∧
        ∀ x, x ∈ listed ↔ before.isLive x = true ∧ before.Within run.tree.root x) ∧
      (after.size = before.size ∧
        (∀ x name node, x ∈ listed → before.get? x = some node → node.data = .identifier name →
          after.get? x = some { node with data := .identifier (Identifier.escape name) }) ∧
        ∀ x, ¬ (x ∈ listed ∧ before.kind? x = some .identifier) →
          after.get? x = before.get? x) ∧
      (let told := listed.filterMap (renaming? before)
       (pass.run run).2.events =
         run.events ++ (told ++ [Notice.escapedIdentifiers told.length]).map (⟨·, run.spans⟩)) ∧
      ∀ again : Run, again.Undisturbed → again.tree = { run.tree with arena := after } →
        (pass.run again).1 = .ok () ∧ (pass.run again).2.tree = again.tree ∧
          (pass.run again).2.events =
            again.events ++ [⟨.escapedIdentifiers 0, again.spans⟩] := by
  intro before
  have hlinks := hreachable.wellLinked hfits
  obtain ⟨after, hafter, hyields⟩ := yields_sweep hlinks
  obtain ⟨left, hran, -, htree, -, hevents⟩ := hyields run.spans run hrun rfl rfl
  rw [hran]
  refine ⟨rfl, after, before.descendantsAndSelf run.tree.root, htree, ⟨?_, ?_, fun x => ?_⟩,
    ⟨hafter.size, fun x name node hx hget hname => ?_, fun x hx => ?_⟩, ?_,
    fun again hagain htree => ?_⟩
  · exact Arena.preOrder_descendantsAndSelf hlinks _
  · exact Arena.nodup_descendantsAndSelf hlinks _
  · rw [Arena.mem_descendantsAndSelf hlinks]
    exact and_congr_left fun hw => by rw [hw.isLive_eq hlinks]
  · have hkind : before.kind? x = some .identifier := by
      rw [Arena.kind?_eq, Arena.data?_of_get? hget, hname]
      rfl
    have hlisted := Arena.mem_descendantsOfKind_iff.mpr ⟨hx, hkind⟩
    rw [hafter.get?_of_mem hlisted hget, hname]
    rfl
  · exact hafter.get?_of_not_mem fun habs => hx (Arena.mem_descendantsOfKind_iff.mp habs)
  · rw [← filterMap_renaming?]
    exact hevents
  · obtain ⟨left, hran, -, hleft, -, hevents⟩ :=
      yields_again hlinks hafter again hagain htree rfl
    rw [hran]
    exact ⟨rfl, hleft.trans htree.symm, hevents⟩

/-- A unit with two names that cannot be written, one more that is removed, and
one in another tree. -/
def strayUnit : SyntaxTree where
  arena := Arena.build
    [.addRoot .compilationUnit, .addTypeDeclaration ⟨0⟩ .classType "<T>",
      .addIdentifier ⟨1⟩ "a b", .addIdentifier ⟨0⟩ "valid", .addIdentifier ⟨0⟩ "not here",
      .remove ⟨5⟩, .addRoot .compilationUnit, .addIdentifier ⟨6⟩ "nor there"]
  root := ⟨0⟩
  annotations := ⟨[], []⟩

/-- Of the unit, the two names at and below the root are escaped and told. -/
theorem renames_strayUnit :
    let ran := pass.run (.start strayUnit .fresh .never)
    ran.1 = .ok () ∧
      (∀ x ∈ [⟨5⟩, ⟨7⟩], ran.2.tree.arena.get? x = strayUnit.arena.get? x) ∧
      ran.2.events =
        [⟨.escapeIdentifier ⟨2⟩ "<T>" "_003CT_003E", []⟩,
          ⟨.escapeIdentifier ⟨3⟩ "a b" "a_0020b", []⟩, ⟨.escapedIdentifiers 2, []⟩] := by
  have hrun : (Run.start strayUnit .fresh .never).Undisturbed := ⟨rfl, rfl⟩
  have hreachable : strayUnit.arena.Reachable := Arena.reachable_build _
  obtain ⟨hok, after, listed, htree, ⟨horder, -⟩, ⟨-, -, hothers⟩, hevents, -⟩ :=
    renames_exactly hrun hreachable (by decide)
  have hwalk := Arena.preOrder_descendantsAndSelf (hreachable.wellLinked (by decide)) ⟨0⟩
  obtain rfl : listed = [⟨0⟩, ⟨1⟩, ⟨2⟩, ⟨3⟩, ⟨4⟩] := (horder.unique hwalk).trans (by decide)
  refine ⟨hok, ?_, hevents.trans (by decide +kernel)⟩
  rw [htree]
  intro x hx
  exact hothers x (by revert x; decide)

end EscapeIdentifiers

end Decompiled
