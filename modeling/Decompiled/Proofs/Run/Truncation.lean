import Decompiled.Proofs.Arena.Reachable
import Decompiled.Proofs.Run.Tail
import Decompiled.Proofs.Run.Textless
import Decompiled.Proofs.Run.Undisturbed

/-!
# Cancelling truncates a run

A run whose token is cancelled while its `n`-th event is written does what the
undisturbed run does, step by step, up to an abort point after that event. Its
state is the shadow of the undisturbed one until then; an abort point ends it,
and the undisturbed run goes on alone.

* `Run.shadow`: the state of the cancelled run, told from the other.
* `Work.Truncatable`: what holds of each step, and of each sequence of steps.
* `cancelled_run_truncated`: how a cancelled run compares with a whole one.
-/

namespace Decompiled

open Work Attempt

namespace Run

/-- The same run, had its token been cancelled while its `n`-th event was
written. -/
def shadow (n : Nat) (run : Run) : Run :=
  { run with token := ⟨decide (n ≤ run.log.size)⟩, moment := .atEvent n }

/-- No run is cancelled before its first event. -/
theorem shadow_start {n : Nat} (hpos : 1 ≤ n) (tree : SyntaxTree) :
    (Run.start tree .fresh .never).shadow n = .start tree .fresh (.atEvent n) := by
  have htoken : (⟨decide (n ≤ 0)⟩ : Token) = .fresh := by
    rw [decide_eq_false (by omega)]
    rfl
  show ({ Run.start tree .fresh .never with
    token := ⟨decide (n ≤ 0)⟩, moment := .atEvent n } : Run) = _
  rw [htoken]
  rfl

end Run

variable {α β : Type}

/-- How a step of a cancelled run ends, compared with the same step of the whole
run: both do the same, or the first was cancelled, not before its `n`-th event,
with no event that the other has not. -/
def Truncates (n : Nat) (whole cut : Except TransformError α × Run) : Prop :=
  cut = (whole.1, whole.2.shadow n) ∨
    (cut.1 = .error .cancelled ∧ n ≤ cut.2.log.size ∧ cut.2.events <+: whole.2.events)

namespace Work

/-- A step that is truncated by a cancelled token, and by nothing else. -/
structure Truncatable (work : Work α) : Prop where
  undisturbed : ∀ {run : Run}, run.Undisturbed → (work run).2.Undisturbed
  goes_on : ∀ {run : Run}, run.Undisturbed → (work run).1 ≠ .error .cancelled
  writes : ∀ {run : Run}, run.Undisturbed → run.events <+: (work run).2.events
  truncates : ∀ {run : Run} (n : Nat), run.Undisturbed →
    Truncates n (work run) (work (run.shadow n))

namespace Truncatable

/-! ## Steps that do not look at the token -/

theorem pure (value : α) : Truncatable (Pure.pure value : Work α) where
  undisturbed := fun h => h
  goes_on := fun _ habs => nomatch habs
  writes := fun _ => List.prefix_rfl
  truncates := fun _ _ => .inl rfl

theorem look (question : SyntaxTree → α) : Truncatable (Work.look question) where
  undisturbed := fun h => h
  goes_on := fun _ habs => nomatch habs
  writes := fun _ => List.prefix_rfl
  truncates := fun _ _ => .inl rfl

theorem failTree (error : TreeError) :
    Truncatable (Attempt.fail (.tree error) : Work α) where
  undisturbed := fun h => h
  goes_on := fun _ habs => nomatch habs
  writes := fun _ => List.prefix_rfl
  truncates := fun _ _ => .inl rfl

theorem noteStart : Truncatable Pass.noteStart where
  undisturbed := fun h => ⟨h.token_eq, h.moment_eq⟩
  goes_on := fun _ habs => nomatch habs
  writes := fun _ => List.prefix_rfl
  truncates := fun _ _ => .inl rfl

theorem edit (change : Edit α) : Truncatable (Work.edit change) where
  undisturbed := fun h => by
    rw [edit_apply]
    exact ⟨h.token_eq, h.moment_eq⟩
  goes_on := by
    intro run _
    rw [edit_apply]
    rcases (change run.tree.arena).1 with _ | _ <;> exact fun habs => nomatch habs
  writes := fun _ => by
    rw [edit_apply]
    exact List.prefix_rfl
  truncates := fun n _ => by
    rw [edit_apply, edit_apply]
    exact .inl rfl

/-! ## Steps that do -/

/-- An abort point ends the cancelled run if its `n`-th event has been
written. -/
theorem abortPoint : Truncatable Work.abortPoint := by
  refine ⟨fun h => ?_, fun h => ?_, fun h => ?_, fun {run} n h => ?_⟩
  · rw [h.abortPoint_eq]
    exact ⟨rfl, h.moment_eq⟩
  · rw [h.abortPoint_eq]
    exact fun habs => nomatch habs
  · rw [h.abortPoint_eq]
    exact List.prefix_rfl
  · have hcut : Work.abortPoint (run.shadow n) =
        (if decide (n ≤ run.log.size) then .error .cancelled else .ok (),
          { run.shadow n with abortPoints := run.abortPoints + 1 }) := by
      have htoken : (run.shadow n).token.cancelIf ((run.shadow n).moment ==
          Moment.atAbortPoint ((run.shadow n).abortPoints + 1)) = (run.shadow n).token :=
        Token.cancelIf_false _
      rw [abortPoint_apply, htoken]
      rfl
    rw [h.abortPoint_eq, hcut]
    by_cases hreached : n ≤ run.log.size
    · right
      rw [decide_eq_true hreached]
      exact ⟨rfl, hreached, List.prefix_rfl⟩
    · left
      rw [decide_eq_false hreached]
      rfl

/-- Each event is written in both runs, and the `n`-th of them cancels one. -/
theorem record (notice : Notice) : Truncatable (Work.record notice) := by
  refine ⟨fun h => ?_, fun h => ?_, fun {run} _ => ?_, fun {run} n h => ?_⟩
  · rw [h.record_eq]
    exact ⟨rfl, h.moment_eq⟩
  · rw [h.record_eq]
    exact fun habs => nomatch habs
  · rw [Run.events_record]
    exact List.prefix_append _ _
  · left
    have htoken : (run.shadow n).token.cancelIf ((run.shadow n).moment ==
        Moment.atEvent ((run.shadow n).log.size + 1)) =
        ⟨decide (n ≤ (run.log.push ⟨notice, run.spans⟩).size)⟩ := by
      rw [Array.size_push]
      exact Run.cancelIf_atEvent n run.log.size
    rw [h.record_eq, record_apply, htoken]
    rfl

/-! ## Sequences -/

/-- Where the first part ends the cancelled run, the second part of the whole
run only adds events. -/
theorem bind {x : Work α} {f : α → Work β} (hx : x.Truncatable)
    (hf : ∀ value, (f value).Truncatable) : (x >>= f).Truncatable := by
  refine ⟨fun {run} h => ?_, fun {run} h => ?_, fun {run} h => ?_, fun {run} n h => ?_⟩
  · have hkept := hx.undisturbed h
    exact state_bind (fun _ _ => hkept) fun value _ => (hf value).undisturbed hkept
  · have hkept := hx.undisturbed h
    have hgoes := hx.goes_on h
    rw [bind_apply]
    rcases hran : x run with ⟨error | value, reached⟩
    · rw [hran] at hgoes
      exact fun habs => hgoes (congrArg Except.error (Except.error.inj habs))
    · rw [hran] at hkept
      exact (hf value).goes_on hkept
  · have hkept := hx.undisturbed h
    have hwrites := hx.writes h
    exact state_bind (P := fun reached : Run => run.events <+: reached.events)
      (fun _ _ => hwrites) fun value _ => hwrites.trans ((hf value).writes hkept)
  · have hkept := hx.undisturbed h
    rcases hx.truncates n h with hsame | ⟨hcancelled, hreached, hprefix⟩
    · -- Both runs are at the same point and go on together.
      rw [bind_apply, bind_apply, hsame]
      rcases hran : x run with ⟨error | value, reached⟩
      · exact .inl rfl
      · rw [hran] at hkept
        exact (hf value).truncates n hkept
    · -- The cancelled run has ended; the other one writes on.
      right
      have hcut : (x >>= f) (run.shadow n) = (.error .cancelled, (x (run.shadow n)).2) := by
        rw [bind_apply]
        rcases hran : x (run.shadow n) with ⟨error | value, reached⟩
        · rw [hran] at hcancelled
          rw [Except.error.inj hcancelled]
        · rw [hran] at hcancelled
          cases hcancelled
      rw [hcut]
      refine ⟨rfl, hreached, hprefix.trans ?_⟩
      exact state_bind (P := fun reached : Run => (x run).2.events <+: reached.events)
        (fun _ _ => List.prefix_rfl) fun value _ => (hf value).writes hkept

theorem inSpan {work : Work α} (h : work.Truncatable) (span : Span) :
    (Work.inSpan span work).Truncatable := by
  have hopen : ∀ {run : Run}, run.Undisturbed →
      ({ run with spans := run.spans ++ [span] } : Run).Undisturbed :=
    fun hrun => ⟨hrun.token_eq, hrun.moment_eq⟩
  refine ⟨fun hrun => ?_, fun hrun => ?_, fun hrun => ?_, fun {run} n hrun => ?_⟩
  · have hkept := h.undisturbed (hopen hrun)
    rw [inSpan_apply]
    exact ⟨hkept.token_eq, hkept.moment_eq⟩
  · rw [inSpan_apply]
    exact h.goes_on (hopen hrun)
  · rw [inSpan_apply]
    exact h.writes (hopen hrun)
  · have hshadow : ({ run.shadow n with spans := (run.shadow n).spans ++ [span] } : Run) =
        Run.shadow n { run with spans := run.spans ++ [span] } := rfl
    rw [inSpan_apply, inSpan_apply, hshadow]
    rcases h.truncates n (hopen hrun) with hsame | ⟨hcancelled, hreached, hprefix⟩
    · left
      rw [hsame]
      rfl
    · exact .inr ⟨hcancelled, hreached, hprefix⟩

/-! ## Passes -/

/-- All that a pipeline does around its passes is truncated with them. -/
theorem inherited : InheritedByPasses fun work => work.Truncatable where
  pure := .pure
  bind := .bind
  abortPoint := .abortPoint
  count := .look _
  noteStart := .noteStart
  finished := fun _ => .record _
  inSpan := fun span hwork => .inSpan hwork span

/-- All that they do themselves is truncated. -/
theorem removals : InheritedByRemovals fun work => work.Truncatable where
  toComposable := inherited.toComposable
  look := fun _ => .look _
  record := .record
  remove := fun _ => .edit _
  fail := .failTree

theorem pass (pass : StandardPass) : pass.pass.run.Truncatable := by
  cases pass with
  | escapeIdentifiers =>
      refine inherited.sweep (.look _) (fun i => ?_) fun _ => .record _
      exact inherited.name_visit (.look _) .record fun _ => .edit _
  | assemblyAttributes => exact inherited.sweep (.look _) removals.section_visit fun _ => .pure ()
  | embeddedTypes => exact inherited.sweep (.look _) removals.helper_visit fun _ => .pure ()

end Truncatable

end Work

/-! ## Whole runs -/

theorem truncatable_pipeline (passes : List StandardPass) :
    (Pipeline.ofList (passes.map StandardPass.pass)).run.Truncatable := by
  unfold Pipeline.run
  rw [Pipeline.passes_ofList]
  exact Truncatable.inherited.performStandard fun pass _ => .pass pass

/-- A run whose token is cancelled while its `n`-th event is written, beside the
same run left alone. It writes a prefix of the other's events with the first
`n` of them, if there are so many. It ends cancelled, or as the other does with
the same events and the same arena. What it traces after its `n`-th event is
about the section of attributes that this event is about, in the same run of
the pass that removes attributes; and the pass that wrote this event is the
last one that it starts. -/
theorem cancelled_run_truncated (passes : List StandardPass) {tree : SyntaxTree}
    (hreachable : tree.arena.Reachable) (hfits : tree.arena.Fits) {n : Nat} (hpos : 1 ≤ n) :
    let whole := runPasses passes tree .fresh .never
    let cut := runPasses passes tree .fresh (.atEvent n)
    cut.2.events <+: whole.2.events ∧
    min n whole.2.events.length ≤ cut.2.events.length ∧
    whole.1 ≠ .error .cancelled ∧
    (cut.1 = .error .cancelled ∨
      cut.1 = whole.1 ∧ cut.2.events = whole.2.events ∧
        cut.2.tree.arena = whole.2.tree.arena) ∧
    TailOfSection tree.arena n cut.2.events ∧
    (n ≤ cut.2.events.length →
      cut.2.started = passesEnded (cut.2.events.take (n - 1)) + 1) := by
  intro whole cut
  have hstart : (Run.start tree .fresh .never).Undisturbed := ⟨rfl, rfl⟩
  have hsteps := truncatable_pipeline passes
  obtain ⟨⟨-, htail⟩, hhalted⟩ :=
    Run.tailed_runPasses passes (hreachable.wellLinked hfits) hpos
  have hends : Truncates n whole cut := by
    have htruncates := hsteps.truncates n hstart
    rwa [Run.shadow_start hpos tree] at htruncates
  refine ⟨?_, ?_, hsteps.goes_on hstart, ?_, htail, ?_⟩
  · rcases hends with hsame | ⟨-, -, hprefix⟩
    · rw [hsame]
      exact List.prefix_rfl
    · exact hprefix
  · rcases hends with hsame | ⟨-, hreached, -⟩
    · rw [hsame]
      exact Nat.min_le_right _ _
    · rw [Run.length_events]
      exact Nat.le_trans (Nat.min_le_left _ _) hreached
  · rcases hends with hsame | ⟨hcancelled, -, -⟩
    · rw [hsame]
      exact .inr ⟨rfl, rfl, rfl⟩
    · exact .inl hcancelled
  · rw [Run.length_events]
    exact hhalted

/-- A module with one section of two attributes that the compiler wrote. -/
def markedModule : SyntaxTree where
  arena := Arena.build
    [.addRoot .compilationUnit, .addAttributeSection ⟨0⟩ .wholeModule,
      .addAttribute ⟨1⟩ "UnverifiableCode", .addAttribute ⟨1⟩ "UnverifiableCode"]
  root := ⟨0⟩
  annotations := ⟨[(⟨3⟩, KnownNames.unverifiableCode), (⟨5⟩, KnownNames.unverifiableCode)], []⟩

/-- Cancelled while the first of the two attributes is removed, a run still
removes the other one and their section, and ends before the next pass. -/
theorem cancelled_run_finishes_section :
    let cut := runPasses [.assemblyAttributes, .embeddedTypes] markedModule .fresh (.atEvent 1)
    markedModule.arena.Fits ∧ cut.1 = .error .cancelled ∧ cut.2.events.length = 4 ∧
      TailOfSection markedModule.arena 1 cut.2.events ∧
      (1 ≤ cut.2.events.length →
        cut.2.started = passesEnded (cut.2.events.take (1 - 1)) + 1) := by
  have hreachable : markedModule.arena.Reachable := Arena.reachable_build _
  have hfits : markedModule.arena.Fits := by decide
  obtain ⟨-, -, -, hends, htail⟩ := cancelled_run_truncated
    [.assemblyAttributes, .embeddedTypes] hreachable hfits (Nat.le_refl 1)
  have hcut : (runPasses [.assemblyAttributes, .embeddedTypes] markedModule .fresh
      (.atEvent 1)).2.events.length = 4 := by decide +kernel
  have hwhole : (runPasses [.assemblyAttributes, .embeddedTypes] markedModule .fresh
      .never).2.events.length = 5 := by decide +kernel
  refine ⟨hfits, ?_, hcut, htail⟩
  rcases hends with hcancelled | ⟨-, hevents, -⟩
  · exact hcancelled
  · rw [hevents, hwhole] at hcut
    cases hcut

end Decompiled
