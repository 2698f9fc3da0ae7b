import Decompiled.Proofs.Pass.Order
import Decompiled.Proofs.Pass.Settled

/-!
# Running the same passes twice

After an undisturbed run each of its passes has settled the tree. When they run
again, each visits the nodes that it lists, finds nothing to do at any of them,
and reports just that.

* `StandardPass.idleReport`: what a pass reports that had nothing to do.
* `StandardPass.Settled.yields_perform`: a pass that has settled the tree.
* `second_run_idle`: an undisturbed run, and the same passes once more.
-/

namespace Decompiled

open Work Attempt

variable {tree : SyntaxTree} {pass : StandardPass} {passes : List StandardPass}

/-! ## Passes with nothing to do -/

namespace StandardPass

/-- The span that a pass of a pipeline works in. -/
def span (pass : StandardPass) : Span := .transform pass.pass.name

/-- What a pass of a pipeline writes if it finds nothing to do. -/
def idleReport (pass : StandardPass) : List Event :=
  match pass with
  | escapeIdentifiers =>
      [⟨.escapedIdentifiers 0, [pass.span]⟩, ⟨.transformFinished 0, [pass.span]⟩]
  | _ => [⟨.transformFinished 0, [pass.span]⟩]

/-- Nothing is traced in it, and all that is counted is nothing. -/
theorem idleReport_quiet {event : Event} (h : event ∈ pass.idleReport) :
    event.notice = .escapedIdentifiers 0 ∨ event.notice = .transformFinished 0 := by
  cases pass with
  | escapeIdentifiers =>
      rcases List.mem_cons.mp h with rfl | h
      · exact .inl rfl
      · rw [List.mem_singleton.mp h]
        exact .inr rfl
  | assemblyAttributes =>
      rw [List.mem_singleton.mp h]
      exact .inr rfl
  | embeddedTypes =>
      rw [List.mem_singleton.mp h]
      exact .inr rfl

/-- A pass that has settled the tree reports that it had nothing to do. -/
theorem Settled.yields_perform (h : pass.Settled tree) :
    pass.pass.perform.Yields tree [] () tree pass.idleReport := by
  have hvisits : (pass.sweep.visitAll 0 (pass.sweep.nodes tree)).Yields tree [pass.span] 0 tree [] :=
    pass.yields_of_rests h 0
  -- As many nodes are live at the end as at the start.
  have hfinished : (Work.look (fun tree => tree.arena.liveCount) >>= fun after =>
      Work.record (.transformFinished (tree.arena.liveCount - after))).Yields tree [pass.span] () tree
        [⟨.transformFinished 0, [pass.span]⟩] := by
    apply Yields.look_bind
    rw [Nat.sub_self]
    exact .record _
  have hperform : ∀ {written}, (pass.sweep.finish 0).Yields tree [pass.span] () tree written →
      pass.pass.perform.Yields tree [] () tree
        (written ++ [⟨.transformFinished 0, [pass.span]⟩]) := by
    intro written hfinish
    have hrun : pass.pass.run.Yields tree [pass.span] () tree written := by
      rw [pass.run_eq]
      exact .look_bind (.quiet_bind hvisits hfinish)
    refine .quiet_bind .abortPoint (.inSpan (.look_bind ?_))
    exact .quiet_bind .noteStart (.bind hrun hfinished)
  cases pass with
  | escapeIdentifiers => exact hperform (.record (.escapedIdentifiers 0))
  | assemblyAttributes => exact hperform (.pure ())
  | embeddedTypes => exact hperform (.pure ())

/-- So do any number of them. -/
theorem yields_performAll (h : ∀ pass ∈ passes, pass.Settled tree) :
    (Pass.performAll (passes.map StandardPass.pass)).Yields tree [] () tree
      (passes.flatMap idleReport) := by
  induction passes with
  | nil => exact .pure ()
  | cons pass rest ih =>
      have hpass := h pass List.mem_cons_self
      have hrest := ih fun other hother => h other (List.mem_cons_of_mem pass hother)
      exact .bind hpass.yields_perform hrest

end StandardPass

/-! ## Whole runs -/

/-- An undisturbed run over a tree whose root is a live compilation unit below
nothing and whose attributes have no children but references to types and
arguments, and the same passes once more over what it has left: the second run
succeeds and changes nothing, not even in removed nodes. It traces nothing; each
pass reports that it has removed no nodes, and each that escapes identifiers
that it has escaped none. -/
theorem second_run_idle (passes : List StandardPass) {tree : SyntaxTree}
    (hreachable : tree.arena.Reachable) (hfits : tree.arena.Fits)
    (hlive : tree.arena.isLive tree.root = true)
    (hparentless : tree.arena.parent? tree.root = none)
    (hunit : tree.arena.kind? tree.root = some .compilationUnit)
    (hattributes : ∀ i c, tree.arena.kind? i = some .attributeUse →
      c ∈ tree.arena.children i →
        tree.arena.kind? c = some .typeReference ∨ tree.arena.kind? c = some .argument) :
    let first := runPasses passes tree .fresh .never
    let second := runPasses passes first.2.tree .fresh .never
    second.1 = .ok () ∧ second.2.tree = first.2.tree ∧
    second.2.events = passes.flatMap StandardPass.idleReport ∧
    ∀ event ∈ second.2.events, event.notice.level ≠ .trace ∧
      (∀ count, event.notice = .escapedIdentifiers count → count = 0) ∧
      (∀ removed, event.notice = .transformFinished removed → removed = 0) := by
  intro first second
  have hregular : tree.Regular :=
    ⟨hreachable.wellLinked hfits, hlive, hparentless, hunit, fun hkind hc =>
      hattributes _ _ hkind hc⟩
  obtain ⟨tree', hjourney⟩ := exists_journey hregular.rooted passes
  have hfirst : first.2.tree = tree' := (runPasses_of_performAll hjourney.turns).2
  have hsettled : ∀ pass ∈ passes, pass.Settled first.2.tree := by
    rw [hfirst]
    exact hjourney.settled hregular
  obtain ⟨left, hleft, -, htree, -, hevents⟩ := StandardPass.yields_performAll hsettled
    (.start first.2.tree .fresh .never) ⟨rfl, rfl⟩ rfl rfl
  have hsecond : second = (.ok (), left) := by
    unfold second runPasses Pipeline.run
    rw [Pipeline.passes_ofList]
    exact hleft
  rw [hsecond]
  replace hevents : left.events = passes.flatMap StandardPass.idleReport := hevents
  refine ⟨rfl, htree, hevents, fun event hevent => ?_⟩
  rw [hevents] at hevent
  obtain ⟨pass, -, hevent⟩ := List.mem_flatMap.mp hevent
  rcases StandardPass.idleReport_quiet hevent with heq | heq
  · rw [heq]
    simp [Notice.level]
  · rw [heq]
    simp [Notice.level]

/-- A run that changes much, and the same passes again. -/
theorem second_run_of_mixedUnit :
    let passes := [StandardPass.escapeIdentifiers, .embeddedTypes, .assemblyAttributes,
      .escapeIdentifiers]
    let first := runPasses passes mixedUnit .fresh .never
    let second := runPasses passes first.2.tree .fresh .never
    first.2.events.length = 11 ∧ second.1 = .ok () ∧ second.2.tree = first.2.tree ∧
      second.2.events = passes.flatMap StandardPass.idleReport := by
  have hreachable : mixedUnit.arena.Reachable := Arena.reachable_build _
  obtain ⟨hok, htree, hevents, -⟩ := second_run_idle
    [.escapeIdentifiers, .embeddedTypes, .assemblyAttributes, .escapeIdentifiers] hreachable
    (by decide) (by decide) (by decide) (by decide) mixedUnit_attributes
  exact ⟨by decide +kernel, hok, htree, hevents⟩

end Decompiled
