import Decompiled.Proofs.Arena.Reachable
import Decompiled.Proofs.Run.Edits

/-!
# The course of a pipeline

A pipeline goes from pass to pass until one of them fails or an abort point is
not passed. `Course` follows it, one `Leg` for each pass that is run. The passes
may be those of this library or any others that leave the log to these: they
may fail, edit the tree, look at it and cancel the token.

* `Leg`: one pass of a run, with the run before it and after it.
* `Course`: the legs of a run, up to its end.
* `Run.Inside`: what may happen to a run while a pass is at work on it.
* `pipeline_course`: the shape of a run.
-/

namespace Decompiled

open Work Attempt

/-- Whether a notice is of the end of a pass. -/
def Notice.isEnd : Notice → Bool
  | .transformFinished _ => true
  | _ => false

/-- One pass of a run, as a pipeline runs it. -/
structure Leg where
  pass : Pass
  /-- The run as the pass finds it. -/
  start : Run
  result : Except TransformError Unit
  /-- The run as the pass leaves it. -/
  stop : Run

namespace Leg

/-- How many nodes the pass is reported to have removed. -/
def removed (leg : Leg) : Nat :=
  leg.start.tree.arena.liveCount - leg.stop.tree.arena.liveCount

/-- What is written while the pass is at work. -/
def written (leg : Leg) : List Event := leg.stop.events.drop leg.start.events.length

/-- What is written right after the pass, in the same span. -/
def report (leg : Leg) : List Event :=
  match leg.result with
  | .ok () => [⟨.transformFinished leg.removed, leg.start.spans⟩]
  | .error _ => []

/-- The run after the report, with the span of the pass closed. -/
def finished (leg : Leg) (outer : List Span) : Run :=
  { (record (.transformFinished leg.removed) leg.stop).2 with spans := outer }

end Leg

/-- The run as a pipeline hands it to a pass. -/
def Run.opened (run : Run) (pass : Pass) : Run :=
  { run with started := run.started + 1, spans := run.spans ++ [.transform pass.name] }

/-- The leg of a pass that is handed the run. -/
def Pass.leg (pass : Pass) (run : Run) : Leg where
  pass := pass
  start := run.opened pass
  result := (pass.run (run.opened pass)).1
  stop := (pass.run (run.opened pass)).2

/-- How a run of passes goes, and how it ends. -/
inductive Course :
    List Pass → Run → List Leg → Except TransformError Unit × Run → Prop
  | finished {run : Run} : Course [] run [] (.ok (), run)
  | cancelled {pass : Pass} {rest : List Pass} {run left : Run} :
      abortPoint run = (.error .cancelled, left) →
      Course (pass :: rest) run [] (.error .cancelled, left)
  | failed {pass : Pass} {rest : List Pass} {run passed : Run} {error : TransformError} :
      abortPoint run = (.ok (), passed) → (pass.leg passed).result = .error error →
      Course (pass :: rest) run [pass.leg passed]
        (.error error, { (pass.leg passed).stop with spans := passed.spans })
  | passed {pass : Pass} {rest : List Pass} {run passed : Run} {legs : List Leg}
      {ended : Except TransformError Unit × Run} :
      abortPoint run = (.ok (), passed) → (pass.leg passed).result = .ok () →
      Course rest ((pass.leg passed).finished passed.spans) legs ended →
      Course (pass :: rest) run (pass.leg passed :: legs) ended

/-- Each run of passes takes a course. -/
theorem exists_course (passes : List Pass) (run : Run) :
    ∃ legs, Course passes run legs (Pass.performAll passes run) := by
  induction passes generalizing run with
  | nil => exact ⟨[], .finished⟩
  | cons pass rest ih =>
      simp only [Pass.performAll]
      rw [bind_apply, Pass.perform_apply]
      rcases hpoint : abortPoint run with ⟨error | ⟨⟩, passed⟩
      · obtain rfl := cancelled_of_abortPoint hpoint
        exact ⟨[], .cancelled hpoint⟩
      · have hleg : pass.run (passed.opened pass) =
            ((pass.leg passed).result, (pass.leg passed).stop) := rfl
        unfold Run.opened at hleg
        simp only
        rw [hleg]
        rcases hresult : (pass.leg passed).result with error | ⟨⟩
        · exact ⟨[pass.leg passed], .failed hpoint hresult⟩
        · obtain ⟨legs, hrest⟩ := ih ((pass.leg passed).finished passed.spans)
          exact ⟨pass.leg passed :: legs, .passed hpoint hresult hrest⟩

namespace Course

variable {passes : List Pass} {run : Run} {legs : List Leg}
  {ended : Except TransformError Unit × Run}

/-! ## Which passes are run, and on what -/

/-- Passes are run in order, each once, until none is left or the run ends. -/
theorem isPrefix (h : Course passes run legs ended) : legs.map Leg.pass <+: passes := by
  induction h with
  | finished => exact List.prefix_refl _
  | cancelled _ => exact List.nil_prefix
  | failed _ _ => exact List.prefix_append [_] _
  | passed _ _ _ ih => exact List.prefix_cons_iff.mpr (.inr ⟨_, rfl, ih⟩)

/-- Each leg is a pass of the pipeline at work, with a token that was not cancelled
when it started. -/
theorem ran (h : Course passes run legs ended) {leg : Leg} (hleg : leg ∈ legs) :
    leg.pass.run leg.start = (leg.result, leg.stop) ∧ leg.start.token.cancelled = false := by
  induction h with
  | finished => cases hleg
  | cancelled _ => cases hleg
  | failed hpoint _ =>
      have huncancelled := uncancelled_of_abortPoint hpoint
      rw [List.mem_singleton.mp hleg]
      exact ⟨rfl, huncancelled⟩
  | passed hpoint _ _ ih =>
      have huncancelled := uncancelled_of_abortPoint hpoint
      rcases List.mem_cons.mp hleg with rfl | hleg
      · exact ⟨rfl, huncancelled⟩
      · exact ih hleg

theorem passes_eq (h : Course passes run legs ended) :
    legs.map Leg.pass = passes.take legs.length := by
  rw [List.prefix_iff_eq_take.mp h.isPrefix, List.length_map]

theorem pass_mem (h : Course passes run legs ended) {leg : Leg} (hleg : leg ∈ legs) :
    leg.pass ∈ passes :=
  h.isPrefix.subset (List.mem_map_of_mem hleg)

/-- Each pass finds the tree that the one before left. -/
theorem trees (h : Course passes run legs ended) :
    run.tree :: legs.map (fun leg => leg.stop.tree) =
      legs.map (fun leg => leg.start.tree) ++ [ended.2.tree] := by
  induction h with
  | finished => rfl
  | cancelled hpoint =>
      show [_] = [_]
      rw [(of_abortPoint hpoint).1]
  | failed hpoint _ =>
      show [_, _] = [_, _]
      rw [← (of_abortPoint hpoint).1]
      rfl
  | passed hpoint _ _ ih =>
      rw [List.map_cons, List.map_cons, List.cons_append, ← ih, ← (of_abortPoint hpoint).1]
      rfl

/-- What each pass keeps of the tree holds before each leg and at the end. -/
theorem along_trees {P : SyntaxTree → Prop} (h : Course passes run legs ended)
    (hpass : ∀ pass ∈ passes, ∀ run : Run, P run.tree → P (pass.run run).2.tree)
    (hstart : P run.tree) : (∀ leg ∈ legs, P leg.start.tree) ∧ P ended.2.tree := by
  induction h with
  | finished => exact ⟨fun _ habs => (nomatch habs), hstart⟩
  | cancelled hpoint =>
      rw [← (of_abortPoint hpoint).1] at hstart
      exact ⟨fun _ habs => (nomatch habs), hstart⟩
  | @failed pass _ _ passed _ hpoint _ =>
      rw [← (of_abortPoint hpoint).1] at hstart
      refine ⟨fun leg hleg => ?_, hpass pass List.mem_cons_self (passed.opened pass) hstart⟩
      rw [List.mem_singleton.mp hleg]
      exact hstart
  | @passed pass _ _ passed _ _ hpoint _ _ ih =>
      rw [← (of_abortPoint hpoint).1] at hstart
      have hstop := hpass pass List.mem_cons_self (passed.opened pass) hstart
      obtain ⟨hlegs, hended⟩ :=
        ih (fun other hother => hpass other (List.mem_cons_of_mem _ hother)) hstop
      exact ⟨List.forall_mem_cons.mpr ⟨hstart, hlegs⟩, hended⟩

/-! ## How it ends -/

/-- Only the last pass that is run can have failed. -/
theorem ok_before (h : Course passes run legs ended) {leg : Leg} (hleg : leg ∈ legs.dropLast) :
    leg.result = .ok () := by
  induction h with
  | finished => cases hleg
  | cancelled _ => cases hleg
  | failed _ _ => cases hleg
  | @passed _ _ _ _ legs _ _ hresult _ ih =>
      cases legs with
      | nil => cases hleg
      | cons _ _ =>
          rcases List.mem_cons.mp hleg with rfl | hleg
          · exact hresult
          · exact ih hleg

/-- The run succeeds when all passes are run and succeed. -/
theorem ok_iff (h : Course passes run legs ended) :
    ended.1 = .ok () ↔ legs.length = passes.length ∧ ∀ leg ∈ legs, leg.result = .ok () := by
  induction h with
  | finished => exact iff_of_true rfl ⟨rfl, fun _ habs => nomatch habs⟩
  | cancelled _ => exact iff_of_false (fun habs => nomatch habs) fun habs => nomatch habs.1
  | failed _ hresult =>
      refine iff_of_false (fun habs => nomatch habs) fun habs => ?_
      rw [habs.2 _ List.mem_cons_self] at hresult
      cases hresult
  | passed _ hresult _ ih =>
      rw [ih, List.length_cons, List.length_cons, Nat.add_right_cancel_iff,
        List.forall_mem_cons, and_iff_right hresult]

/-- A run that fails does so with the error of the last pass that is run, or at
the abort point before the next one. -/
theorem of_error (h : Course passes run legs ended) {error : TransformError}
    (hended : ended.1 = .error error) :
    (∃ leg, legs.getLast? = some leg ∧ leg.result = .error error) ∨
    ((∀ leg ∈ legs, leg.result = .ok ()) ∧ legs.length < passes.length ∧
      error = .cancelled ∧ ∃ mid, Pass.performAll (passes.take legs.length) run = (.ok (), mid) ∧
        abortPoint mid = (.error .cancelled, ended.2)) := by
  induction h with
  | finished => cases hended
  | cancelled hpoint =>
      cases hended
      exact .inr ⟨fun _ habs => (nomatch habs), Nat.succ_pos _, rfl, _, rfl, hpoint⟩
  | failed _ hresult =>
      cases hended
      exact .inl ⟨_, rfl, hresult⟩
  | @passed pass rest run passed legs ended hpoint hresult _ ih =>
      rcases ih hended with ⟨leg, hlast, herror⟩ | ⟨hall, hlt, hcancelled, mid, hmid, hnext⟩
      · left
        refine ⟨leg, ?_, herror⟩
        rw [List.getLast?_cons, hlast]
        rfl
      · right
        refine ⟨List.forall_mem_cons.mpr ⟨hresult, hall⟩, Nat.succ_lt_succ hlt, hcancelled, mid,
          ?_, hnext⟩
        have hleg : pass.run (passed.opened pass) = (.ok (), (pass.leg passed).stop) :=
          Prod.ext hresult rfl
        unfold Run.opened at hleg
        have hperformed : pass.perform run =
            (.ok (), (pass.leg passed).finished passed.spans) := by
          rw [Pass.perform_apply, hpoint]
          simp only
          rw [hleg]
          rfl
        rw [List.length_cons, List.take_succ_cons]
        simp only [Pass.performAll]
        rw [bind_of_ok hperformed, hmid]

end Course

/-! ## The log -/

/-- While a pass is at work, what is written goes to the span that it was
started in, nothing is said of its end, and no other pass is started. -/
structure Run.Inside (run run' : Run) : Prop where
  started : run'.started = run.started
  spans : run'.spans = run.spans
  events : ∃ news, run'.events = run.events ++ news ∧
    ∀ event ∈ news, event.spans = run.spans ∧ event.notice.isEnd = false

/-- A pass that leaves the log to others. It may fail, edit the tree, pass abort
points and cancel the token. -/
def Pass.Quiet (pass : Pass) : Prop :=
  ∀ run, (pass.run run).2.log = run.log ∧ (pass.run run).2.spans = run.spans ∧
    (pass.run run).2.started = run.started

namespace Run.Inside

theorem of_log {run run' : Run} (hlog : run'.log = run.log) (hspans : run'.spans = run.spans)
    (hstarted : run'.started = run.started) : run.Inside run' := by
  refine ⟨hstarted, hspans, [], ?_, fun _ habs => nomatch habs⟩
  unfold Run.events
  rw [hlog, List.append_nil]

instance : Std.Refl Run.Inside := ⟨fun _ => of_log rfl rfl rfl⟩

instance : IsTrans Run Run.Inside where
  trans := by
    rintro first second third ⟨hstarted, hspans, news, hnews, hall⟩
      ⟨hstarted', hspans', later, hlater, hall'⟩
    refine ⟨hstarted'.trans hstarted, hspans'.trans hspans, news ++ later, ?_, ?_⟩
    · rw [hlater, hnews, List.append_assoc]
    · intro event hmem
      rcases List.mem_append.mp hmem with hmem | hmem
      · exact hall event hmem
      · rw [← hspans]
        exact hall' event hmem

theorem of_push {run run' : Run} {notice : Notice} (hnotice : notice.isEnd = false)
    (hlog : run'.log = run.log.push ⟨notice, run.spans⟩) (hspans : run'.spans = run.spans)
    (hstarted : run'.started = run.started) : run.Inside run' := by
  refine ⟨hstarted, hspans, [⟨notice, run.spans⟩], ?_, fun event hmem => ?_⟩
  · unfold Run.events
    rw [hlog, Array.toList_push]
  · rw [List.mem_singleton.mp hmem]
    exact ⟨rfl, hnotice⟩

theorem covers : Work.Covers Run.Inside where
  abortPoint := fun _ => of_log rfl rfl rfl
  escaped := fun _ _ => of_push rfl rfl rfl rfl
  edit := by
    intro run notice change h
    have hnotice : notice.isEnd = false := by cases h <;> rfl
    rw [announce_apply]
    exact of_push hnotice rfl rfl rfl

end Run.Inside

theorem StandardPass.inside_run (pass : StandardPass) (run : Run) :
    run.Inside (pass.pass.run run).2 :=
  pass.along_run Run.Inside.covers run

theorem Pass.Quiet.inside_run {pass : Pass} (h : pass.Quiet) (run : Run) :
    run.Inside (pass.run run).2 := by
  obtain ⟨hlog, hspans, hstarted⟩ := h run
  exact .of_log hlog hspans hstarted

namespace Leg

variable {leg : Leg} (h : leg.start.Inside leg.stop)

include h

/-- What is in the log after a pass: what was there before, and what the pass
has written. -/
theorem events_stop : leg.stop.events = leg.start.events ++ leg.written := by
  obtain ⟨news, hnews, -⟩ := h.events
  unfold written
  rw [hnews, List.drop_left]

theorem written_inside {event : Event} (hevent : event ∈ leg.written) :
    event.spans = leg.start.spans ∧ event.notice.isEnd = false := by
  obtain ⟨news, hnews, hall⟩ := h.events
  unfold written at hevent
  rw [hnews, List.drop_left] at hevent
  exact hall event hevent

end Leg

/-- What is written from `run` to `run'` is what the legs write, each in a span
of its own, and they are all the passes started in between. -/
structure Logs (run : Run) (legs : List Leg) (run' : Run) : Prop where
  started : run'.started = run.started + legs.length
  spans : run'.spans = run.spans
  events : run'.events = run.events ++ legs.flatMap fun leg => leg.written ++ leg.report
  inner : ∀ leg ∈ legs, leg.start.spans = run.spans ++ [.transform leg.pass.name]

namespace Logs

variable {run mid run' passed : Run} {legs legs' : List Leg} {pass : Pass}

theorem refl (run : Run) : Logs run [] run where
  started := rfl
  spans := rfl
  events := (List.append_nil _).symm
  inner := fun _ habs => nomatch habs

theorem trans (h : Logs run legs mid) (h' : Logs mid legs' run') :
    Logs run (legs ++ legs') run' where
  started := by rw [h'.started, h.started, List.length_append, Nat.add_assoc]
  spans := h'.spans.trans h.spans
  events := by rw [h'.events, h.events, List.flatMap_append, List.append_assoc]
  inner := by
    intro leg hleg
    rcases List.mem_append.mp hleg with hleg | hleg
    · exact h.inner leg hleg
    · rw [← h.spans]
      exact h'.inner leg hleg

theorem of_abortPoint {result : Except TransformError Unit}
    (h : abortPoint run = (result, passed)) : Logs run [] passed := by
  obtain ⟨-, hlog, hspans, hstarted⟩ := Work.of_abortPoint h
  refine ⟨hstarted, hspans, ?_, fun _ habs => nomatch habs⟩
  unfold Run.events
  rw [hlog]
  exact (List.append_nil _).symm

section OneLeg

variable (h : (pass.leg passed).start.Inside (pass.leg passed).stop)

include h

theorem of_failed {error : TransformError} (hresult : (pass.leg passed).result = .error error) :
    Logs passed [pass.leg passed]
      { (pass.leg passed).stop with spans := passed.spans } where
  started := h.started
  spans := rfl
  events := by
    have hreport : (pass.leg passed).report = [] := by
      unfold Leg.report
      rw [hresult]
    rw [List.flatMap_singleton, hreport, List.append_nil]
    exact Leg.events_stop h
  inner := by
    intro leg hleg
    rw [List.mem_singleton.mp hleg]
    rfl

theorem of_finished (hresult : (pass.leg passed).result = .ok ()) :
    Logs passed [pass.leg passed] ((pass.leg passed).finished passed.spans) where
  started := h.started
  spans := rfl
  events := by
    have hreport : (pass.leg passed).report =
        [⟨.transformFinished (pass.leg passed).removed, (pass.leg passed).stop.spans⟩] := by
      unfold Leg.report
      rw [hresult, h.spans]
    rw [List.flatMap_singleton, hreport, ← List.append_assoc]
    show ((pass.leg passed).stop.log.push _).toList = _
    rw [Array.toList_push]
    exact congrArg (· ++ _) (Leg.events_stop h)
  inner := by
    intro leg hleg
    rw [List.mem_singleton.mp hleg]
    rfl

end OneLeg

end Logs

namespace Course

variable {passes : List Pass} {run : Run} {legs : List Leg}
  {ended : Except TransformError Unit × Run}

theorem inside (h : Course passes run legs ended)
    (hinside : ∀ pass ∈ passes, ∀ run, Run.Inside run (pass.run run).2) {leg : Leg}
    (hleg : leg ∈ legs) : leg.start.Inside leg.stop := by
  have hstop := hinside leg.pass (h.pass_mem hleg) leg.start
  rwa [(h.ran hleg).1] at hstop

/-- What a run writes is what its legs write. -/
theorem logs (h : Course passes run legs ended)
    (hinside : ∀ pass ∈ passes, ∀ run, Run.Inside run (pass.run run).2) :
    Logs run legs ended.2 := by
  induction h with
  | finished => exact .refl _
  | cancelled hpoint => exact .of_abortPoint hpoint
  | @failed pass _ _ passed _ hpoint hresult =>
      have hleg := hinside pass List.mem_cons_self (passed.opened pass)
      exact (Logs.of_abortPoint hpoint).trans (.of_failed hleg hresult)
  | @passed pass _ _ passed _ _ hpoint hresult _ ih =>
      have hleg := hinside pass List.mem_cons_self (passed.opened pass)
      have hrest := ih fun other hother => hinside other (List.mem_cons_of_mem _ hother)
      exact ((Logs.of_abortPoint hpoint).trans (.of_finished hleg hresult)).trans hrest

end Course

/-- A run of any passes, of this library or others that leave the log to these,
with any tree and token. It has legs, each a pass at work on the tree that the
one before left: the first passes of the pipeline in order, none more than once
and none after the first error. All that is written is written by them in spans
of their own, with a report after each that succeeds. The run succeeds when all
passes are run and succeed. Otherwise its error is that of the last leg, or the
abort point before the next pass was not passed. Running the pipeline in two
parts, the second if the first succeeds, is running it at once. -/
theorem pipeline_course (passes : List Pass) (run : Run)
    (hpasses : ∀ pass ∈ passes,
      (∃ standard : StandardPass, pass = standard.pass) ∨ pass.Quiet) :
    let ended := (Pipeline.ofList passes).run run
    (∃ legs : List Leg,
      legs.map Leg.pass = passes.take legs.length ∧
      ended.2.started = run.started + legs.length ∧
      (∀ leg ∈ legs, leg.pass.run leg.start = (leg.result, leg.stop) ∧
        leg.start.token.cancelled = false) ∧
      run.tree :: legs.map (fun leg => leg.stop.tree) =
        legs.map (fun leg => leg.start.tree) ++ [ended.2.tree] ∧
      (∀ leg ∈ legs.dropLast, leg.result = .ok ()) ∧
      ended.2.events = run.events ++ legs.flatMap (fun leg => leg.written ++ leg.report) ∧
      (∀ leg ∈ legs, leg.stop.events = leg.start.events ++ leg.written ∧
        leg.start.spans = run.spans ++ [.transform leg.pass.name] ∧
        ∀ event ∈ leg.written,
          event.spans = leg.start.spans ∧ event.notice.isEnd = false) ∧
      ended.2.spans = run.spans ∧
      (ended.1 = .ok () ↔
        legs.length = passes.length ∧ ∀ leg ∈ legs, leg.result = .ok ()) ∧
      ∀ error, ended.1 = .error error →
        (∃ leg, legs.getLast? = some leg ∧ leg.result = .error error) ∨
        ((∀ leg ∈ legs, leg.result = .ok ()) ∧ legs.length < passes.length ∧
          error = .cancelled ∧
          ∃ mid, (Pipeline.ofList (passes.take legs.length)).run run = (.ok (), mid) ∧
            abortPoint mid = (.error .cancelled, ended.2))) ∧
    ∀ ps qs, passes = ps ++ qs →
      ended = match (Pipeline.ofList ps).run run with
        | (.ok (), mid) => (Pipeline.ofList qs).run mid
        | (.error error, mid) => (.error error, mid) := by
  intro ended
  have hinside : ∀ pass ∈ passes, ∀ run, Run.Inside run (pass.run run).2 := by
    intro pass hpass run
    rcases hpasses pass hpass with ⟨standard, rfl⟩ | hquiet
    · exact standard.inside_run run
    · exact hquiet.inside_run run
  have hrun : ∀ passes, (Pipeline.ofList passes).run = Pass.performAll passes := by
    intro passes
    unfold Pipeline.run
    rw [Pipeline.passes_ofList]
  obtain ⟨legs, hcourse⟩ := exists_course passes run
  rw [← hrun] at hcourse
  have hlogs := hcourse.logs hinside
  refine ⟨⟨legs, hcourse.passes_eq, hlogs.started, fun _ => hcourse.ran, hcourse.trees,
    fun _ => hcourse.ok_before, hlogs.events, fun leg hleg => ?_, hlogs.spans, hcourse.ok_iff,
    fun error herror => ?_⟩, ?_⟩
  · have hleg' := hcourse.inside hinside hleg
    exact ⟨Leg.events_stop hleg', hlogs.inner leg hleg, fun _ => Leg.written_inside hleg'⟩
  · rw [hrun]
    exact hcourse.of_error herror
  · rintro ps qs rfl
    show (Pipeline.ofList (ps ++ qs)).run run = _
    rw [hrun, hrun, hrun, Pass.performAll_append, bind_apply]
    rcases Pass.performAll ps run with ⟨_ | _, _⟩ <;> rfl

/-- A pass that gives a type another name, one that cancels the token, and one
that is not reached. -/
theorem course_of_cancelled_run :
    let tree : SyntaxTree :=
      ⟨Arena.build [.addRoot .compilationUnit, .addTypeDeclaration ⟨0⟩ .classType "a-b"],
        ⟨0⟩, ⟨[], []⟩⟩
    let passes : List Pass :=
      [StandardPass.escapeIdentifiers.pass, ⟨"stop", Work.cancel⟩,
        StandardPass.embeddedTypes.pass]
    let ended := (Pipeline.ofList passes).run (.start tree .fresh .never)
    ended.1 ≠ .ok () ∧
      ended.2.events.map Event.notice =
        [.escapeIdentifier ⟨2⟩ "a-b" "a_002Db", .escapedIdentifiers 1, .transformFinished 0,
          .transformFinished 0] ∧
      ∃ legs : List Leg,
        legs.map Leg.pass =
          [StandardPass.escapeIdentifiers.pass, ⟨"stop", Work.cancel⟩] ∧
        ended.2.events = legs.flatMap (fun leg => leg.written ++ leg.report) := by
  intro tree passes ended
  have hquiet : Pass.Quiet ⟨"stop", Work.cancel⟩ := fun _ => ⟨rfl, rfl, rfl⟩
  have hpasses : ∀ pass ∈ passes,
      (∃ standard : StandardPass, pass = standard.pass) ∨ pass.Quiet := by
    intro pass hpass
    simp only [passes, List.mem_cons, List.not_mem_nil, or_false] at hpass
    rcases hpass with rfl | rfl | rfl
    · exact .inl ⟨.escapeIdentifiers, rfl⟩
    · exact .inr hquiet
    · exact .inl ⟨.embeddedTypes, rfl⟩
  obtain ⟨⟨legs, hlegs, hstarted, -, -, -, hevents, -, -, hok, -⟩, -⟩ :=
    pipeline_course passes (.start tree .fresh .never) hpasses
  have hcount : legs.length = 2 := by
    have htwo : ((Pipeline.ofList passes).run (.start tree .fresh .never)).2.started = 2 := by
      decide +kernel
    rw [htwo] at hstarted
    exact (hstarted.trans (Nat.zero_add _)).symm
  rw [hcount] at hlegs
  refine ⟨fun habs => ?_, by decide +kernel, legs, hlegs, hevents⟩
  have hall : legs.length = 3 := (hok.mp habs).1
  rw [hcount] at hall
  cases hall

end Decompiled
