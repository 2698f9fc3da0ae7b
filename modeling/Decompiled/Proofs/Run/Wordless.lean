import Decompiled.Proofs.Arena.Reachable
import Decompiled.Proofs.Run.Textless

/-!
# Removals do not depend on text

The passes that remove nodes go by resolved names, by the values of arguments
and by how the tree hangs together. So they do the same to two trees that
differ in nothing but text that stands in the source.

* `Run.wordless`: a run over the wordless tree.
* `Pass.ignores_performAll`: a pipeline of these passes cannot tell it apart.
* `removals_ignore_text`: two trees with different text.
-/

namespace Decompiled

open Work Attempt

/-- The run, over a tree without text. -/
def Run.wordless (run : Run) : Run := { run with tree := run.tree.wordless }

/-! ## Steps -/

theorem Work.ignores_look_wordless {α : Type} {question : SyntaxTree → α}
    (h : Textless question) : (look question).Ignores Run.wordless := by
  intro run
  show (Except.ok (question run.tree.wordless), run.wordless) = _
  rw [h]
  rfl

theorem Work.removals_wordless : InheritedByRemovals fun work => work.Ignores Run.wordless where
  pure := .pure
  bind := .bind
  look := ignores_look_wordless
  record := fun _ _ => rfl
  remove := by
    intro i run
    rw [edit_apply, edit_apply]
    show ((Edit.remove i run.tree.arena.wordless).1.mapError TransformError.tree,
      ({ run with
        tree := { run.tree with arena := (Edit.remove i run.tree.arena.wordless).2 } } : Run)) = _
    rw [Edit.remove_wordless]
    rfl
  fail := fun _ => .fail _

theorem Work.ignores_inSpan {α : Type} {work : Work α} (h : work.Ignores Run.wordless)
    (span : Span) : (inSpan span work).Ignores Run.wordless := by
  intro run
  have hopened := h { run with spans := run.spans ++ [span] }
  rw [inSpan_apply, inSpan_apply]
  show ((work (Run.wordless { run with spans := run.spans ++ [span] })).1,
    ({ (work (Run.wordless { run with spans := run.spans ++ [span] })).2 with
      spans := run.spans } : Run)) = _
  rw [hopened]
  rfl

/-! ## Sweeps and pipelines -/

/-- All that a pipeline does around its passes ignores the text. -/
theorem Work.inherited_wordless : InheritedByPasses fun work => work.Ignores Run.wordless where
  toComposable := removals_wordless.toComposable
  abortPoint := fun _ => rfl
  count := ignores_look_wordless fun tree => tree.arena.liveCount_wordless
  noteStart := fun _ => rfl
  finished := fun _ => removals_wordless.record _
  inSpan := fun span hwork => ignores_inSpan hwork span

/-- The passes that remove nodes go by what a wordless tree shows. -/
theorem StandardPass.ignores_run {pass : StandardPass} (hpass : pass ≠ .escapeIdentifiers) :
    pass.pass.run.Ignores Run.wordless := by
  cases pass with
  | escapeIdentifiers => exact absurd rfl hpass
  | assemblyAttributes =>
      exact inherited_wordless.sweep (ignores_look_wordless AssemblyAttributes.textless_nodes)
        removals_wordless.section_visit fun _ => .pure ()
  | embeddedTypes =>
      exact inherited_wordless.sweep (ignores_look_wordless EmbeddedTypes.textless_nodes)
        removals_wordless.helper_visit fun _ => .pure ()

theorem Pass.ignores_performAll {passes : List StandardPass}
    (hpasses : .escapeIdentifiers ∉ passes) :
    (performAll (passes.map StandardPass.pass)).Ignores Run.wordless :=
  inherited_wordless.performStandard fun _ hpass =>
    StandardPass.ignores_run fun habs => hpasses (habs ▸ hpass)

/-- Two trees with one root and the same annotations, whose arenas are the same
but for the text of identifiers, references to types and nodes of no particular
kind. Passes that remove nodes, in any order and with any repetitions, end in
the same way over both, write the same events, and leave arenas that are again
the same but for that text: each node of one hangs where it hangs in the other,
has the same children and is removed in both or in neither. -/
theorem removals_ignore_text {passes : List StandardPass}
    (hpasses : .escapeIdentifiers ∉ passes) {first second : SyntaxTree}
    (hroot : first.root = second.root) (hannotations : first.annotations = second.annotations)
    (harena : first.arena.wordless = second.arena.wordless) (token : Token) (moment : Moment) :
    let run := runPasses passes first token moment
    let run' := runPasses passes second token moment
    run.1 = run'.1 ∧
    run.2.events = run'.2.events ∧
    run.2.tree.arena.wordless = run'.2.tree.arena.wordless ∧
    ∀ i, run.2.tree.arena.parent? i = run'.2.tree.arena.parent? i ∧
      run.2.tree.arena.children i = run'.2.tree.arena.children i ∧
      run.2.tree.arena.isLive i = run'.2.tree.arena.isLive i := by
  intro run run'
  have htrees : first.wordless = second.wordless := by
    unfold SyntaxTree.wordless
    rw [hroot, hannotations, harena]
  -- Both runs are the run over the tree that the two have in common.
  have hall : (runPasses passes first.wordless token moment) = (run.1, run.2.wordless) ∧
      (runPasses passes second.wordless token moment) = (run'.1, run'.2.wordless) := by
    have hignores := Pass.ignores_performAll hpasses
    unfold run run' runPasses Pipeline.run
    rw [Pipeline.passes_ofList]
    exact ⟨hignores (.start first token moment), hignores (.start second token moment)⟩
  have hboth : (run.1, run.2.wordless) = (run'.1, run'.2.wordless) := by
    rw [← hall.1, ← hall.2, htrees]
  obtain ⟨hresult, hleft⟩ := Prod.mk.injEq .. ▸ hboth
  have hevents : run.2.wordless.events = run'.2.wordless.events := congrArg Run.events hleft
  have hwordless : run.2.wordless.tree.arena = run'.2.wordless.tree.arena :=
    congrArg (fun left => left.tree.arena) hleft
  replace hwordless : run.2.tree.arena.wordless = run'.2.tree.arena.wordless := hwordless
  refine ⟨hresult, hevents, hwordless, fun i => ⟨?_, ?_, ?_⟩⟩
  · rw [← Arena.parent?_wordless, hwordless, Arena.parent?_wordless]
  · rw [← Arena.children_wordless, hwordless, Arena.children_wordless]
  · rw [← Arena.isLive_wordless, hwordless, Arena.isLive_wordless]

/-- A unit of a section with an attribute that the compiler wrote, a namespace
that holds nothing but a helper type, and a statement, with any text in it. -/
def textedUnit (reference name label : String) : SyntaxTree where
  arena := Arena.build
    [.addRoot .compilationUnit, .addAttributeSection ⟨0⟩ .wholeModule,
      .addAttribute ⟨1⟩ reference, .addNamespace ⟨0⟩ name,
      .addTypeDeclaration ⟨4⟩ .classType name, .addOther ⟨0⟩ label]
  root := ⟨0⟩
  annotations :=
    ⟨[(⟨3⟩, KnownNames.unverifiableCode)], [(⟨6⟩, ⟨KnownNames.embedded, ⟨1⟩⟩)]⟩

/-- Whatever the text, the helper type goes with its namespace, and the
attribute with its section. -/
theorem removals_ignore_text_of_unit :
    let first := textedUnit "UnverifiableCode" "Embedded" "return 0;"
    let second := textedUnit "DebuggableAttribute" "1 + 1" ""
    let run := runPasses [.embeddedTypes, .assemblyAttributes] first .fresh .never
    let run' := runPasses [.embeddedTypes, .assemblyAttributes] second .fresh .never
    first.arena ≠ second.arena ∧ run.2.tree.arena.liveCount = 2 ∧
      run.1 = run'.1 ∧ run.2.events = run'.2.events ∧
      run.2.tree.arena.wordless = run'.2.tree.arena.wordless := by
  have hsame : (textedUnit "UnverifiableCode" "Embedded" "return 0;").arena.wordless =
      (textedUnit "DebuggableAttribute" "1 + 1" "").arena.wordless := by
    unfold Arena.wordless
    rw [Arena.mk.injEq, ← Array.toList_inj, Array.toList_map, Array.toList_map]
    decide +kernel
  obtain ⟨hresult, hevents, hwordless, -⟩ :=
    @removals_ignore_text [.embeddedTypes, .assemblyAttributes] (by decide)
      (textedUnit "UnverifiableCode" "Embedded" "return 0;")
      (textedUnit "DebuggableAttribute" "1 + 1" "") rfl rfl hsame .fresh .never
  exact ⟨by decide +kernel, by decide +kernel, hresult, hevents, hwordless⟩

end Decompiled
