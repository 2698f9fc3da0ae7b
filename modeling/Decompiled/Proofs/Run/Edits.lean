import Mathlib.Logic.Relation
import Decompiled.Proofs.Run.Sequences
import Decompiled.Proofs.Steps

/-!
# The edits of the passes

All a pass does to a tree is done in announced edits: a notice, and right after
it the edit that the notice is about. There are four kinds of them, listed in
`Work.Announces` with what is known of the tree at that moment. A pass makes
such edits, and steps around them that leave the tree alone, until it has
succeeded or one of them has failed. What holds of each step holds of the pass,
and of the run of a whole pipeline.

* `Work.Announces`: the announced edits.
* `Work.Step`, `Work.Halt`: the steps of a pass, and how it fails.
* `StandardPass.trail_run`: each pass is made of these.
* `Work.Covers`, `Work.CoversPasses`: what a relation has to hold along.
* `along_runPasses`: a relation that covers the steps covers each run.
-/

namespace Decompiled

/-- Run passes of this library over a tree, in order. -/
def runPasses (passes : List StandardPass) (tree : SyntaxTree) (token : Token)
    (moment : Moment) : Except TransformError Unit × Run :=
  (Pipeline.ofList (passes.map StandardPass.pass)).run (.start tree token moment)

namespace Work

variable {α β : Type}

/-- Write a notice, and then edit the tree. -/
def announce (notice : Notice) (change : Edit Unit) : Work Unit := do
  record notice
  edit change

theorem look_bind_apply (question : SyntaxTree → α) (f : α → Work β) (run : Run) :
    (look question >>= f) run = f (question run.tree) run := rfl

/-- An announced edit changes the log, the arena and perhaps the token. -/
theorem announce_apply (notice : Notice) (change : Edit Unit) (run : Run) :
    announce notice change run =
      ((change run.tree.arena).1.mapError .tree,
        { run with
          tree := { run.tree with arena := (change run.tree.arena).2 }
          log := run.log.push ⟨notice, run.spans⟩
          token :=
            run.token.cancelIf (run.moment == Moment.atEvent (run.log.size + 1)) }) := by
  unfold announce
  rw [Attempt.bind_of_ok (record_apply notice run), edit_apply]

/-- An abort point leaves the tree alone. -/
theorem abortPoint_cases (run : Run) :
    (abortPoint run).2.tree = run.tree ∧
      ((abortPoint run).1 = .error .cancelled ∨ (abortPoint run).1 = .ok ()) := by
  rw [abortPoint_apply]
  refine ⟨rfl, ?_⟩
  simp only
  split
  · exact .inl rfl
  · exact .inr rfl

/-- It changes the token and the count of abort points alone. -/
theorem of_abortPoint {run passed : Run} {result : Except TransformError Unit}
    (h : abortPoint run = (result, passed)) :
    passed.tree = run.tree ∧ passed.log = run.log ∧ passed.spans = run.spans ∧
      passed.started = run.started := by
  obtain ⟨-, rfl⟩ := Prod.mk.inj h
  exact ⟨rfl, rfl, rfl, rfl⟩

/-- It is not passed with a cancelled token. -/
theorem uncancelled_of_abortPoint {run passed : Run} (h : abortPoint run = (.ok (), passed)) :
    passed.token.cancelled = false := by
  obtain ⟨hresult, rfl⟩ := Prod.mk.inj h
  simp only at hresult ⊢
  split at hresult
  · cases hresult
  · rename_i htoken
    simpa using htoken

theorem cancelled_of_abortPoint {run left : Run} {error : TransformError}
    (h : abortPoint run = (.error error, left)) : error = .cancelled := by
  rcases (abortPoint_cases run).2 with hcancelled | hok
  · rw [h] at hcancelled
    exact Except.error.inj hcancelled
  · rw [h] at hok
    cases hok

/-- The announced edits, each with what holds of the tree just before it. -/
inductive Announces (tree : SyntaxTree) : Notice → Edit Unit → Prop
  | name {i : NodeIndex} {before after : String} :
      tree.arena.identifierName? i = some before →
      Identifier.escape? before = some after →
      Announces tree (.escapeIdentifier i before after) (Edit.setIdentifierName i after)
  | marker {i : NodeIndex} {target : AttributeTarget} {rule : SyntaxTree → NodeIndex → Bool} :
      AssemblyAttributes.rule? target = some rule →
      rule tree i = true →
      Announces tree (.removeAttribute i (tree.attributeFullName? i)) (Edit.remove i)
  | emptySection {i : NodeIndex} :
      tree.arena.attributes i = [] →
      Announces tree (.removeEmptySection i) (Edit.remove i)
  | helper {i p : NodeIndex} :
      tree.arena.isLive i = true →
      EmbeddedTypes.isHelper tree i = true →
      tree.arena.parent? i = some p →
      Announces tree
        (.removeEmbeddedType i (EmbeddedTypes.isSingleMemberNamespace tree.arena p))
        (Edit.remove
          (if EmbeddedTypes.isSingleMemberNamespace tree.arena p then p else i))

/-- A step after which a pass goes on. -/
inductive Step (run : Run) : Run → Prop
  | abortPoint : (Work.abortPoint run).1 = .ok () → Step run (Work.abortPoint run).2
  | escaped (count : Nat) : Step run (record (.escapedIdentifiers count) run).2
  | edit {notice : Notice} {change : Edit Unit} : Announces run.tree notice change →
      (change run.tree.arena).1 = .ok () → Step run (announce notice change run).2

/-- A step with which a pass fails. -/
inductive Halt (run : Run) : TransformError → Run → Prop
  | cancelled : (Work.abortPoint run).1 = .error .cancelled →
      Halt run .cancelled (Work.abortPoint run).2
  /-- A helper type below nothing is not removed. -/
  | parentless {i : NodeIndex} : run.tree.arena.isLive i = true →
      EmbeddedTypes.isHelper run.tree i = true → run.tree.arena.parent? i = none →
      Halt run (.tree (.noParent i)) run
  | edit {notice : Notice} {change : Edit Unit} {error : TreeError} :
      Announces run.tree notice change → (change run.tree.arena).1 = .error error →
      Halt run (.tree error) (announce notice change run).2

/-- Some steps, one after the other. -/
abbrev Trail : Run → Run → Prop := Relation.ReflTransGen Step

/-- From a run, steps lead to the end of some work, or to the step with which it
fails. -/
def EndsTrail (run : Run) (ended : Except TransformError α × Run) : Prop :=
  (∀ value, ended.1 = .ok value → Trail run ended.2) ∧
  ∀ error, ended.1 = .error error → ∃ mid, Trail run mid ∧ Halt mid error ended.2

/-- What a relation between runs has to hold along for it to hold along every
pass. -/
structure Covers (R : Run → Run → Prop) : Prop where
  abortPoint : ∀ run, R run (Work.abortPoint run).2
  escaped : ∀ count run, R run (record (.escapedIdentifiers count) run).2
  edit : ∀ {run notice change}, Announces run.tree notice change →
    R run (announce notice change run).2

/-- What it has to hold along besides for it to hold along every pipeline. -/
structure CoversPasses (R : Run → Run → Prop) : Prop extends Covers R where
  noteStart : ∀ run, R run (Pass.noteStart run).2
  finished : ∀ removed run, R run (record (.transformFinished removed) run).2
  /-- What holds between runs in an open span holds once it is closed. -/
  close : ∀ {run run' : Run} {inner : List Span}, R { run with spans := inner } run' →
    R run { run' with spans := run.spans }

namespace EndsTrail

variable {run : Run}

theorem ok (value : α) : EndsTrail run (.ok value, run) :=
  ⟨fun _ _ => .refl, fun _ habs => nomatch habs⟩

theorem of_halt {error : TransformError} {left : Run} (h : Halt run error left) :
    EndsTrail run ((.error error : Except TransformError α), left) :=
  ⟨fun _ habs => (nomatch habs), fun _ heq => ⟨run, .refl, Except.error.inj heq ▸ h⟩⟩

theorem pure (value : α) : EndsTrail run ((Pure.pure value : Work α) run) := ok value

theorem abortPoint : EndsTrail run (Work.abortPoint run) := by
  refine ⟨fun _ hok => .single (.abortPoint hok), fun error herror => ?_⟩
  rcases (abortPoint_cases run).2 with hcancelled | hok
  · rw [hcancelled] at herror
    cases herror
    exact ⟨run, .refl, .cancelled hcancelled⟩
  · rw [hok] at herror
    cases herror

/-- An announced edit is a step, or the work fails with it. -/
theorem announce {notice : Notice} {change : Edit Unit} (h : Announces run.tree notice change) :
    EndsTrail run (Work.announce notice change run) := by
  have hresult : (Work.announce notice change run).1 =
      (change run.tree.arena).1.mapError .tree := by
    rw [announce_apply]
  unfold EndsTrail
  rw [hresult]
  rcases hedit : (change run.tree.arena).1 with error | ⟨⟩
  · refine ⟨fun _ habs => (nomatch habs), fun _ heq => ?_⟩
    exact ⟨run, .refl, Except.error.inj heq ▸ .edit h hedit⟩
  · exact ⟨fun _ _ => .single (.edit h hedit), fun _ habs => nomatch habs⟩

/-- The trails of the parts make up the trail of a sequence. -/
theorem bind {x : Work α} {f : α → Work β} (hx : EndsTrail run (x run))
    (hf : ∀ value left, x run = (.ok value, left) → EndsTrail left (f value left)) :
    EndsTrail run ((x >>= f) run) := by
  rw [Attempt.bind_apply]
  rcases hran : x run with ⟨error | value, left⟩
  · rw [hran] at hx
    exact ⟨fun _ habs => (nomatch habs), fun _ heq => hx.2 _ (by rw [← Except.error.inj heq])⟩
  · rw [hran] at hx
    have hmid : Trail run left := hx.1 value rfl
    obtain ⟨hgoes, hfails⟩ := hf value left hran
    refine ⟨fun value' hvalue => hmid.trans (hgoes value' hvalue), fun error herror => ?_⟩
    obtain ⟨last, htrail, hhalt⟩ := hfails error herror
    exact ⟨last, hmid.trans htrail, hhalt⟩

/-- Whatever a run is like before the parts, this is so for the sequence. -/
theorem inherited : Inherited fun work => ∀ run, EndsTrail run (work run) where
  pure := fun value _ => .pure value
  bind := fun hx hf run => .bind (hx run) fun value left _ => hf value left
  abortPoint := fun _ => .abortPoint

/-- A relation that covers the steps covers their trails. -/
theorem along {R : Run → Run → Prop} [Std.Refl R] [IsTrans Run R] (h : Covers R)
    {ended : Except TransformError α × Run} (htrail : EndsTrail run ended) : R run ended.2 := by
  have hsteps : ∀ {left}, Trail run left → R run left := by
    intro left htrail
    induction htrail with
    | refl => exact Std.Refl.refl run
    | tail _ hstep ih =>
        refine trans_of R ih ?_
        cases hstep with
        | abortPoint _ => exact h.abortPoint _
        | escaped count => exact h.escaped count _
        | edit hannounces _ => exact h.edit hannounces
  have hhalts : ∀ {mid error left}, Halt mid error left → R mid left := by
    intro mid error left hhalt
    cases hhalt with
    | cancelled _ => exact h.abortPoint mid
    | parentless => exact Std.Refl.refl mid
    | edit hannounces _ => exact h.edit hannounces
  rcases hended : ended.1 with error | value
  · obtain ⟨mid, hgoes, hhalt⟩ := htrail.2 error hended
    exact trans_of R (hsteps hgoes) (hhalts hhalt)
  · exact hsteps (htrail.1 value hended)

end EndsTrail

section Along

variable {R : Run → Run → Prop}

/-- A question leaves the run alone. -/
theorem along_look [Std.Refl R] (question : SyntaxTree → α) : (look question).Along R :=
  .of_still fun _ => rfl

theorem along_inSpan (hclose : ∀ {run run' : Run} {inner : List Span},
      R { run with spans := inner } run' → R run { run' with spans := run.spans })
    {span : Span} {work : Work α} (h : work.Along R) : (inSpan span work).Along R := by
  intro run
  rw [inSpan_apply]
  exact hclose (h { run with spans := run.spans ++ [span] })

variable [Std.Refl R] [IsTrans Run R]

/-- Sequences go where their parts go. -/
theorem inherited_along (habort : Work.abortPoint.Along R) :
    Inherited fun work => work.Along R where
  pure := .pure
  bind := .bind
  abortPoint := habort

theorem CoversPasses.inherited (h : CoversPasses R) :
    InheritedByPasses fun work => work.Along R where
  toInherited := inherited_along h.abortPoint
  count := along_look _
  noteStart := h.noteStart
  finished := h.finished
  inSpan := fun _ hwork => along_inSpan h.close hwork

end Along

end Work

open Work Attempt

/-! ## The visits -/

/-- Looking at an identifier either changes nothing or gives it the name that
is announced. -/
theorem EscapeIdentifiers.visit_cases (i : NodeIndex) (run : Run) :
    EscapeIdentifiers.visit i run = (.ok 0, run) ∨
    ∃ before after, run.tree.arena.identifierName? i = some before ∧
      Identifier.escape? before = some after ∧
      EscapeIdentifiers.visit i run =
        (announce (.escapeIdentifier i before after) (Edit.setIdentifierName i after) >>=
          fun _ => pure 1) run := by
  unfold EscapeIdentifiers.visit
  rw [look_bind_apply]
  rcases hname : run.tree.arena.identifierName? i with _ | before
  · exact .inl rfl
  · rcases hafter : Identifier.escape? before with _ | after
    · left
      simp only
      rw [hafter]
      rfl
    · right
      refine ⟨before, after, rfl, hafter, ?_⟩
      unfold announce
      simp only
      rw [hafter, bind_assoc]

/-- One attribute is removed, with its announcement, if the rule holds. -/
theorem AssemblyAttributes.removeMatching_cons (rule : SyntaxTree → NodeIndex → Bool)
    (i : NodeIndex) (rest : List NodeIndex) (run : Run) :
    AssemblyAttributes.removeMatching rule (i :: rest) run =
      if rule run.tree i then
        (announce (.removeAttribute i (run.tree.attributeFullName? i)) (Edit.remove i) >>=
          fun _ => AssemblyAttributes.removeMatching rule rest) run
      else AssemblyAttributes.removeMatching rule rest run := by
  simp only [AssemblyAttributes.removeMatching]
  rw [look_bind_apply]
  split
  · rw [look_bind_apply]
    unfold announce
    rw [bind_assoc]
  · rfl

/-- A section without attributes is removed, with its announcement. -/
theorem AssemblyAttributes.removeIfEmpty_apply (i : NodeIndex) (run : Run) :
    AssemblyAttributes.removeIfEmpty i run =
      if run.tree.arena.attributes i = [] then
        announce (.removeEmptySection i) (Edit.remove i) run
      else (.ok (), run) := by
  unfold AssemblyAttributes.removeIfEmpty
  rw [look_bind_apply]
  simp only [List.isEmpty_iff]
  split <;> rfl

/-- A section is cleaned by the rule for its target, if there is one. -/
theorem AssemblyAttributes.visit_apply (i : NodeIndex) (run : Run) :
    AssemblyAttributes.visit i run =
      match (run.tree.arena.attributeTarget? i).bind AssemblyAttributes.rule? with
      | none => (.ok 0, run)
      | some rule =>
          (AssemblyAttributes.removeMatching rule (run.tree.arena.attributes i) >>= fun _ =>
            AssemblyAttributes.removeIfEmpty i >>= fun _ => pure 0) run := by
  unfold AssemblyAttributes.visit
  rw [look_bind_apply]
  rcases (run.tree.arena.attributeTarget? i).bind AssemblyAttributes.rule? with _ | rule
  · rfl
  · rfl

/-- A helper type is removed, alone or with its namespace, if it has a parent. -/
theorem EmbeddedTypes.removeHelper_apply (i : NodeIndex) (run : Run) :
    EmbeddedTypes.removeHelper i run =
      match run.tree.arena.parent? i with
      | none => (.error (.tree (.noParent i)), run)
      | some p =>
          announce
            (.removeEmbeddedType i (EmbeddedTypes.isSingleMemberNamespace run.tree.arena p))
            (Edit.remove
              (if EmbeddedTypes.isSingleMemberNamespace run.tree.arena p then p else i)) run := by
  unfold EmbeddedTypes.removeHelper
  rw [look_bind_apply]
  rcases run.tree.arena.parent? i with _ | p
  · rfl
  · rfl

/-- A declaration is removed if it is a live helper. -/
theorem EmbeddedTypes.visit_apply (i : NodeIndex) (run : Run) :
    EmbeddedTypes.visit i run =
      if run.tree.arena.isLive i && EmbeddedTypes.isHelper run.tree i then
        (EmbeddedTypes.removeHelper i >>= fun _ => pure 0) run
      else (.ok 0, run) := by
  unfold EmbeddedTypes.visit
  rw [look_bind_apply]
  split <;> rfl

/-! ## The trails of the visits -/

theorem EscapeIdentifiers.trail_visit (i : NodeIndex) (run : Run) :
    EndsTrail run (EscapeIdentifiers.visit i run) := by
  rcases EscapeIdentifiers.visit_cases i run with hskip | ⟨before, after, hname, hafter, hvisit⟩
  · rw [hskip]
    exact .ok 0
  · rw [hvisit]
    exact .bind (.announce (.name hname hafter)) fun _ _ _ => .pure 1

theorem AssemblyAttributes.trail_removeMatching {target : AttributeTarget}
    {rule : SyntaxTree → NodeIndex → Bool} (hrule : AssemblyAttributes.rule? target = some rule)
    (indices : List NodeIndex) (run : Run) :
    EndsTrail run (AssemblyAttributes.removeMatching rule indices run) := by
  induction indices generalizing run with
  | nil => exact .pure ()
  | cons i rest ih =>
      rw [AssemblyAttributes.removeMatching_cons]
      split
      · rename_i hmatch
        exact .bind (.announce (.marker hrule hmatch)) fun _ left _ => ih left
      · exact ih run

theorem AssemblyAttributes.trail_removeIfEmpty (i : NodeIndex) (run : Run) :
    EndsTrail run (AssemblyAttributes.removeIfEmpty i run) := by
  rw [AssemblyAttributes.removeIfEmpty_apply]
  split
  · rename_i hempty
    exact .announce (.emptySection hempty)
  · exact .ok ()

theorem AssemblyAttributes.trail_visit (i : NodeIndex) (run : Run) :
    EndsTrail run (AssemblyAttributes.visit i run) := by
  rw [AssemblyAttributes.visit_apply]
  rcases hrule : (run.tree.arena.attributeTarget? i).bind AssemblyAttributes.rule? with _ | rule
  · exact .ok 0
  · obtain ⟨target, -, hrule⟩ := Option.bind_eq_some_iff.mp hrule
    refine .bind (AssemblyAttributes.trail_removeMatching hrule _ run) fun _ left _ => ?_
    exact .bind (AssemblyAttributes.trail_removeIfEmpty i left) fun _ _ _ => .pure 0

theorem EmbeddedTypes.trail_visit (i : NodeIndex) (run : Run) :
    EndsTrail run (EmbeddedTypes.visit i run) := by
  rw [EmbeddedTypes.visit_apply]
  split
  · rename_i hhelper
    rw [Bool.and_eq_true] at hhelper
    refine .bind ?_ fun _ _ _ => .pure 0
    rw [EmbeddedTypes.removeHelper_apply]
    rcases hp : run.tree.arena.parent? i with _ | p
    · exact .of_halt (.parentless hhelper.1 hhelper.2 hp)
    · exact .announce (.helper hhelper.1 hhelper.2 hp)
  · exact .ok 0

/-! ## The run of a pipeline -/

section Pipelines

variable {R : Run → Run → Prop} [Std.Refl R] [IsTrans Run R]

theorem Sweep.trail_run {sweep : Sweep} (hvisit : ∀ i run, EndsTrail run (sweep.visit i run))
    (hfinish : ∀ count run, EndsTrail run (sweep.finish count run)) (run : Run) :
    EndsTrail run (sweep.run run) :=
  EndsTrail.inherited.sweep (fun run => .ok (sweep.nodes run.tree)) hvisit hfinish run

/-- A sweep goes where abort points and its visits go. -/
theorem Sweep.along_run {sweep : Sweep} (habort : Work.abortPoint.Along R)
    (hvisit : ∀ i, (sweep.visit i).Along R) (hfinish : ∀ count, (sweep.finish count).Along R) :
    sweep.run.Along R :=
  (inherited_along habort).sweep (along_look _) hvisit hfinish

/-- A pass makes steps until it has succeeded or one of them has failed. -/
theorem StandardPass.trail_run (pass : StandardPass) (run : Run) :
    EndsTrail run (pass.pass.run run) := by
  cases pass with
  | escapeIdentifiers =>
      refine Sweep.trail_run EscapeIdentifiers.trail_visit (fun count run => ?_) run
      exact ⟨fun _ _ => .single (.escaped count), fun _ habs => (nomatch habs)⟩
  | assemblyAttributes =>
      exact Sweep.trail_run AssemblyAttributes.trail_visit (fun _ _ => .pure ()) run
  | embeddedTypes => exact Sweep.trail_run EmbeddedTypes.trail_visit (fun _ _ => .pure ()) run

theorem StandardPass.along_run (h : Covers R) (pass : StandardPass) : pass.pass.run.Along R :=
  fun run => (pass.trail_run run).along h

/-- What a pass does as part of a pipeline: an abort point, the pass itself in
its span, and the notice of its end if it came to one. -/
theorem Pass.perform_apply (pass : Pass) (run : Run) :
    pass.perform run =
      match abortPoint run with
      | (.error e, run) => (.error e, run)
      | (.ok (), run) =>
          match pass.run { run with
              started := run.started + 1, spans := run.spans ++ [.transform pass.name] } with
          | (.error e, run') => (.error e, { run' with spans := run.spans })
          | (.ok (), run') =>
              (.ok (),
                { (record (.transformFinished
                    (run.tree.arena.liveCount - run'.tree.arena.liveCount)) run').2 with
                  spans := run.spans }) := by
  unfold Pass.perform
  rw [Attempt.bind_apply]
  rcases abortPoint run with ⟨_ | _, opened⟩
  · rfl
  · show inSpan _ _ opened = _
    rw [inSpan_apply, look_bind_apply]
    have hstart : noteStart { opened with spans := opened.spans ++ [.transform pass.name] } =
        (.ok (), { opened with
          started := opened.started + 1, spans := opened.spans ++ [.transform pass.name] }) :=
      rfl
    -- What is left is the pass itself and the notice of its end.
    rw [Attempt.bind_of_ok hstart, Attempt.bind_apply]
    rcases hran : pass.run { opened with
        started := opened.started + 1, spans := opened.spans ++ [.transform pass.name] }
      with ⟨_ | _, ended⟩
    · simp only [hran]
    · simp only [hran]
      rfl

theorem along_performAll (h : CoversPasses R) (passes : List StandardPass) :
    (Pass.performAll (passes.map StandardPass.pass)).Along R :=
  h.inherited.performStandard fun pass _ => pass.along_run h.toCovers

/-- A relation that covers the steps of a run covers each run of passes of this
library, however it ends. -/
theorem along_runPasses (h : CoversPasses R) (passes : List StandardPass) (tree : SyntaxTree)
    (token : Token) (moment : Moment) :
    R (.start tree token moment) (runPasses passes tree token moment).2 := by
  unfold runPasses Pipeline.run
  rw [Pipeline.passes_ofList]
  exact along_performAll h passes _

end Pipelines

end Decompiled
