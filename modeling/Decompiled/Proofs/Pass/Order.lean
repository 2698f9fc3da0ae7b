import Decompiled.Proofs.Arena.Reachable
import Decompiled.Proofs.Pass.Progress

/-!
# The order of passes

Which passes a pipeline is made of decides what it makes of a tree. In which
order they run, and how often, does not.

* `Progress.isLive_eq`, `Progress.get?_eq`: progress is told by the set of passes.
* `runPasses_order_irrelevant`: two pipelines of the same passes.
-/

namespace Decompiled

variable {tree : SyntaxTree} {a b : Arena} {ps qs : List StandardPass} {x : NodeIndex}

namespace Progress

variable (ha : Progress tree ps a) (hb : Progress tree qs b)
  (hsame : ∀ pass, pass ∈ ps ↔ pass ∈ qs)

include ha hb hsame

/-- The same passes leave the same nodes. -/
theorem isLive_eq (x : NodeIndex) : a.isLive x = b.isLive x := by
  rw [Bool.eq_iff_iff, ha.live_iff, hb.live_iff, hsame, hsame]

theorem data?_eq (hx : a.isLive x = true) : a.data? x = b.data? x := by
  have hxb : b.isLive x = true := isLive_eq ha hb hsame x ▸ hx
  by_cases hw : .escapeIdentifiers ∈ ps ∧ tree.arena.Within tree.root x
  · rw [ha.escaped hw.1 x hx hw.2, hb.escaped ((hsame _).mp hw.1) x hxb hw.2]
  · rw [ha.carries x hx hw, hb.carries x hxb]
    rwa [← hsame]

/-- What they leave is the same in each slot. -/
theorem get?_eq (hx : a.isLive x = true) : a.get? x = b.get? x := by
  have hlive := isLive_eq ha hb hsame
  have hxb : b.isLive x = true := hlive x ▸ hx
  apply Arena.get?_eq_of_views
  · rw [ha.thins.isSome_get?, hb.thins.isSome_get?]
  · exact hlive x
  · exact data?_eq ha hb hsame hx
  · rw [ha.thins.hangs hx, hb.thins.hangs hxb]
  · rw [ha.thins.lists hx, hb.thins.lists hxb]
    exact List.filter_congr fun c _ => hlive c

/-- They mark the same slots as removed. -/
theorem removed_eq (x : NodeIndex) :
    (a.get? x).map Node.removed = (b.get? x).map Node.removed := by
  have hthere : (a.get? x).isSome = (b.get? x).isSome := by
    rw [ha.thins.isSome_get?, hb.thins.isSome_get?]
  have hlive := isLive_eq ha hb hsame x
  rcases hga : a.get? x with _ | m <;> rcases hgb : b.get? x with _ | n
  · rfl
  · rw [hga, hgb] at hthere
    cases hthere
  · rw [hga, hgb] at hthere
    cases hthere
  · rw [Arena.isLive_of_get? hga, Arena.isLive_of_get? hgb] at hlive
    rw [Option.map_some, Option.map_some, Bool.not_inj hlive]

end Progress

/-- A run of passes that nobody cancels succeeds and makes their progress. -/
theorem progress_runPasses (hregular : tree.Regular) (passes : List StandardPass) :
    (runPasses passes tree .fresh .never).1 = .ok () ∧
      Progress tree passes (runPasses passes tree .fresh .never).2.tree.arena := by
  have hrun : (runPasses passes tree .fresh .never).1 = .ok () ∧
      ∃ b, (runPasses passes tree .fresh .never).2.tree = { tree with arena := b } ∧
        Progress tree passes b := by
    refine runPasses_of_turns
      (I := fun done t => ∃ b, t = { tree with arena := b } ∧ Progress tree done b)
      ?_ ⟨_, rfl, .start hregular⟩ passes
    rintro done pass t ⟨b, rfl, hb⟩
    obtain ⟨b', hturns, hb'⟩ := hb.pass hregular pass
    exact ⟨_, hturns, b', rfl, hb'⟩
  obtain ⟨hok, b, htree, hb⟩ := hrun
  rw [htree]
  exact ⟨hok, hb⟩

/-- Two pipelines of the same passes, in any orders and with any repetitions,
over a tree whose root is a live compilation unit below nothing and whose
attributes have no children but references to types and arguments: left alone,
both succeed, both mark the same slots as removed, and each node that is not
removed is the same in both. -/
theorem runPasses_order_irrelevant (hreachable : tree.arena.Reachable) (hfits : tree.arena.Fits)
    (hlive : tree.arena.isLive tree.root = true)
    (hparentless : tree.arena.parent? tree.root = none)
    (hunit : tree.arena.kind? tree.root = some .compilationUnit)
    (hattributes : ∀ i c, tree.arena.kind? i = some .attributeUse →
      c ∈ tree.arena.children i →
        tree.arena.kind? c = some .typeReference ∨ tree.arena.kind? c = some .argument)
    (hsame : ∀ pass, pass ∈ ps ↔ pass ∈ qs) :
    let first := runPasses ps tree .fresh .never
    let second := runPasses qs tree .fresh .never
    first.1 = .ok () ∧ second.1 = .ok () ∧
    (∀ i, (first.2.tree.arena.get? i).map Node.removed =
      (second.2.tree.arena.get? i).map Node.removed) ∧
    (∀ i node, first.2.tree.arena.get? i = some node → node.removed = false →
      second.2.tree.arena.get? i = some node) := by
  intro first second
  have hregular : tree.Regular :=
    ⟨hreachable.wellLinked hfits, hlive, hparentless, hunit, fun hkind hc =>
      hattributes _ _ hkind hc⟩
  obtain ⟨hok, hfirst⟩ := progress_runPasses hregular ps
  obtain ⟨hok', hsecond⟩ := progress_runPasses hregular qs
  refine ⟨hok, hok', hfirst.removed_eq hsecond hsame, fun i node hget hkept => ?_⟩
  have hi : first.2.tree.arena.isLive i = true := Arena.isLive_iff.mpr ⟨node, hget, hkept⟩
  rw [← hfirst.get?_eq hsecond hsame hi]
  exact hget

/-- A unit with something to do for each pass: a section with an attribute that
the compiler wrote, a namespace that holds nothing but a helper type, and a type
whose name cannot be written. -/
def mixedUnit : SyntaxTree where
  arena := Arena.build
    [.addRoot .compilationUnit, .addAttributeSection ⟨0⟩ .wholeModule,
      .addAttribute ⟨1⟩ "UnverifiableCode", .addNamespace ⟨0⟩ "1",
      .addTypeDeclaration ⟨4⟩ .classType "E", .addTypeDeclaration ⟨0⟩ .classType "a-b"]
  root := ⟨0⟩
  annotations :=
    ⟨[(⟨3⟩, KnownNames.unverifiableCode)], [(⟨6⟩, ⟨KnownNames.embedded, ⟨1⟩⟩)]⟩

theorem mixedUnit_attributes (i c : NodeIndex)
    (hkind : mixedUnit.arena.kind? i = some .attributeUse)
    (hc : c ∈ mixedUnit.arena.children i) :
    mixedUnit.arena.kind? c = some .typeReference ∨
      mixedUnit.arena.kind? c = some .argument := by
  have hall : ∀ n < 10, mixedUnit.arena.kind? (.ofCount n) = some .attributeUse →
      ∀ c ∈ mixedUnit.arena.children (.ofCount n),
        mixedUnit.arena.kind? c = some .typeReference ∨
          mixedUnit.arena.kind? c = some .argument := by decide
  have hsize : i.toNat < 10 := by
    obtain ⟨node, hget, -⟩ := Option.map_eq_some_iff.mp hkind
    have hlt : i.toNat < mixedUnit.arena.size := (Arena.bounds_of_get? hget).2
    have hsize : mixedUnit.arena.size = 10 := by decide
    omega
  rw [← NodeIndex.ofCount_toNat i] at hkind hc
  exact hall i.toNat hsize hkind c hc

/-- Run in one order, and in another with a repetition. -/
theorem runPasses_mixedUnit :
    let first := runPasses [.escapeIdentifiers, .assemblyAttributes, .embeddedTypes]
      mixedUnit .fresh .never
    let second := runPasses [.embeddedTypes, .assemblyAttributes, .escapeIdentifiers,
      .assemblyAttributes] mixedUnit .fresh .never
    first.2.tree.arena.liveCount = 3 ∧ first.1 = .ok () ∧ second.1 = .ok () ∧
      ∀ i node, first.2.tree.arena.get? i = some node → node.removed = false →
        second.2.tree.arena.get? i = some node := by
  have hreachable : mixedUnit.arena.Reachable := Arena.reachable_build _
  have hsame : ∀ pass, pass ∈ [StandardPass.escapeIdentifiers, .assemblyAttributes,
      .embeddedTypes] ↔ pass ∈ [StandardPass.embeddedTypes, .assemblyAttributes,
      .escapeIdentifiers, .assemblyAttributes] := by
    intro pass
    cases pass <;> decide
  obtain ⟨hok, hok', -, hnodes⟩ := runPasses_order_irrelevant hreachable (by decide)
    (by decide) (by decide) (by decide) mixedUnit_attributes hsame
  exact ⟨by decide +kernel, hok, hok', hnodes⟩

end Decompiled
