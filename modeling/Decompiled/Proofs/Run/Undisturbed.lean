import Decompiled.Proofs.Run.Edits

/-!
# Undisturbed runs

A run that nobody cancels passes each of its abort points, so it depends on its
tree alone: what it wrote before, the spans that are open and the counts of the
run make no difference to what it does to the tree.

* `Work.Turns`: what a step makes of a tree, in any undisturbed run.
* `exists_of_invariant`: what is done for the members of a list, in order.
* `Sweep.turns_visitAll`: a sweep, by an invariant of the visits made so far.
* `runPasses_of_turns`: a pipeline, by an invariant of the passes run so far.
-/

namespace Decompiled

open Work Attempt

/-- Nobody has cancelled the run or ever will. -/
structure Run.Undisturbed (run : Run) : Prop where
  token_eq : run.token = .fresh
  moment_eq : run.moment = .never

theorem Run.Undisturbed.cancelIf_eq {run : Run} (h : run.Undisturbed) {now : Moment}
    (hnow : now ≠ .never) : run.token.cancelIf (run.moment == now) = .fresh := by
  rw [h.token_eq, h.moment_eq, beq_false_of_ne hnow.symm, Token.cancelIf_false]

/-- Each abort point is passed. -/
theorem Run.Undisturbed.abortPoint_eq {run : Run} (h : run.Undisturbed) :
    Work.abortPoint run =
      (.ok (), { run with token := .fresh, abortPoints := run.abortPoints + 1 }) := by
  rw [abortPoint_apply, h.cancelIf_eq (by exact fun habs => nomatch habs)]
  rfl

theorem Run.Undisturbed.record_eq {run : Run} (h : run.Undisturbed) (notice : Notice) :
    Work.record notice run =
      (.ok (), { run with
        log := run.log.push ⟨notice, run.spans⟩, token := .fresh }) := by
  rw [record_apply, h.cancelIf_eq (by exact fun habs => nomatch habs)]

namespace Work

variable {α β : Type} {tree tree' tree'' : SyntaxTree}

/-- In each undisturbed run over the first tree, the step succeeds and leaves
the second tree and an undisturbed run. -/
def Turns (work : Work α) (tree tree' : SyntaxTree) : Prop :=
  ∀ run : Run, run.Undisturbed → run.tree = tree →
    ∃ value, (work run).1 = .ok value ∧ (work run).2.Undisturbed ∧ (work run).2.tree = tree'

namespace Turns

theorem pure (value : α) : Turns (Pure.pure value : Work α) tree tree :=
  fun _ hrun htree => ⟨value, rfl, hrun, htree⟩

theorem abortPoint : Turns Work.abortPoint tree tree := by
  intro run hrun htree
  rw [hrun.abortPoint_eq]
  exact ⟨(), rfl, ⟨rfl, hrun.moment_eq⟩, htree⟩

theorem record (notice : Notice) : Turns (Work.record notice) tree tree := by
  intro run hrun htree
  rw [hrun.record_eq]
  exact ⟨(), rfl, ⟨rfl, hrun.moment_eq⟩, htree⟩

theorem noteStart : Turns Pass.noteStart tree tree :=
  fun _ hrun htree => ⟨(), rfl, ⟨hrun.token_eq, hrun.moment_eq⟩, htree⟩

/-- A successful edit changes the arena. -/
theorem edit {change : Edit α} {value : α} {after : Arena}
    (h : change tree.arena = (.ok value, after)) :
    Turns (Work.edit change) tree { tree with arena := after } := by
  rintro run hrun rfl
  rw [edit_apply, h]
  exact ⟨value, rfl, ⟨hrun.token_eq, hrun.moment_eq⟩, rfl⟩

theorem bind {x : Work α} {f : α → Work β} (hx : x.Turns tree tree')
    (hf : ∀ value, (f value).Turns tree' tree'') : (x >>= f).Turns tree tree'' := by
  intro run hrun htree
  obtain ⟨value, hvalue, hrun', htree'⟩ := hx run hrun htree
  have hran : x run = (.ok value, (x run).2) := Prod.ext hvalue rfl
  rw [bind_of_ok hran]
  exact hf value _ hrun' htree'

/-- What is seen of the tree decides what comes next. -/
theorem look_bind {question : SyntaxTree → α} {f : α → Work β}
    (h : (f (question tree)).Turns tree tree') :
    (Work.look question >>= f).Turns tree tree' := by
  rintro run hrun rfl
  rw [look_bind_apply]
  exact h run hrun rfl

theorem announce {notice : Notice} {change : Edit Unit} {after : Arena}
    (h : change tree.arena = (.ok (), after)) :
    Turns (Work.announce notice change) tree { tree with arena := after } :=
  .bind (.record notice) fun _ => .edit h

theorem inSpan {work : Work α} (h : work.Turns tree tree') (span : Span) :
    (Work.inSpan span work).Turns tree tree' := by
  intro run hrun htree
  rw [inSpan_apply]
  obtain ⟨value, hvalue, hrun', htree'⟩ :=
    h { run with spans := run.spans ++ [span] } ⟨hrun.token_eq, hrun.moment_eq⟩ htree
  exact ⟨value, hvalue, ⟨hrun'.token_eq, hrun'.moment_eq⟩, htree'⟩

end Turns

end Work

/-! ## Invariants of what has been done so far -/

/-- Something is done for each member of a list, in order. If it can be done once
more whenever an invariant of the members done so far holds, and keeps it, then it
can be done for all of them, and the invariant holds of the whole list. -/
theorem exists_of_invariant {ι σ : Type} (all : List ι → σ → σ → Prop)
    {one : ι → σ → σ → Prop} {I : List ι → σ → Prop} {items : List ι} {start : σ}
    (hnil : ∀ s, all [] s s)
    (hcons : ∀ {item rest s mid s'}, one item s mid → all rest mid s' → all (item :: rest) s s')
    (hstep : ∀ done item rest, items = done ++ item :: rest → ∀ s, I done s →
      ∃ s', one item s s' ∧ I (done ++ [item]) s')
    (hstart : I [] start) : ∃ stop, all items start stop ∧ I items stop := by
  -- The induction is on what is left to do, whatever has been done before.
  have key : ∀ rest done, items = done ++ rest → ∀ s, I done s →
      ∃ stop, all rest s stop ∧ I items stop := by
    intro rest
    induction rest with
    | nil =>
        intro done heq s hdone
        rw [List.append_nil] at heq
        subst heq
        exact ⟨s, hnil s, hdone⟩
    | cons item rest ih =>
        intro done heq s hdone
        obtain ⟨mid, hone, hnext⟩ := hstep done item rest heq s hdone
        have hrest : items = (done ++ [item]) ++ rest := by
          rw [heq, List.append_assoc]
          rfl
        obtain ⟨stop, hall, hlast⟩ := ih (done ++ [item]) hrest mid hnext
        exact ⟨stop, hcons hone hall, hlast⟩
  exact key items [] rfl start hstart

/-! ## Sweeps and pipelines -/

/-- An invariant of the visits made so far holds after the last one. -/
theorem Sweep.turns_visitAll {sweep : Sweep} {I : List NodeIndex → SyntaxTree → Prop}
    {nodes : List NodeIndex}
    (hvisit : ∀ done i rest, nodes = done ++ i :: rest → ∀ tree, I done tree →
      ∃ tree', (sweep.visit i).Turns tree tree' ∧ I (done ++ [i]) tree')
    {tree : SyntaxTree} (hstart : I [] tree) :
    ∃ tree', (∀ changes, (sweep.visitAll changes nodes).Turns tree tree') ∧ I nodes tree' :=
  exists_of_invariant
    (fun rest tree tree' => ∀ changes, (sweep.visitAll changes rest).Turns tree tree')
    (fun _ changes => .pure changes)
    (fun hone hall changes => .bind .abortPoint fun _ => .bind hone fun more =>
      hall (changes + more))
    hvisit hstart

theorem Sweep.turns_run {sweep : Sweep} {I : List NodeIndex → SyntaxTree → Prop}
    {tree : SyntaxTree}
    (hvisit : ∀ done i rest, sweep.nodes tree = done ++ i :: rest → ∀ tree, I done tree →
      ∃ tree', (sweep.visit i).Turns tree tree' ∧ I (done ++ [i]) tree')
    (hfinish : ∀ count tree, (sweep.finish count).Turns tree tree) (hstart : I [] tree) :
    ∃ tree', sweep.run.Turns tree tree' ∧ I (sweep.nodes tree) tree' := by
  obtain ⟨tree', hall, hlast⟩ := Sweep.turns_visitAll hvisit hstart
  refine ⟨tree', ?_, hlast⟩
  apply Turns.look_bind
  exact .bind (hall 0) fun count => hfinish count tree'

/-- A pass of a pipeline makes of a tree what the pass alone makes of it. -/
theorem Pass.turns_perform {pass : Pass} {tree tree' : SyntaxTree}
    (h : pass.run.Turns tree tree') : pass.perform.Turns tree tree' := by
  refine .bind .abortPoint fun _ => .inSpan ?_ _
  apply Turns.look_bind
  refine .bind .noteStart fun _ => .bind h fun _ => ?_
  apply Turns.look_bind
  exact .record _

/-- An undisturbed run does what its passes do in any undisturbed run. -/
theorem runPasses_of_performAll {passes : List StandardPass} {tree tree' : SyntaxTree}
    (h : (Pass.performAll (passes.map StandardPass.pass)).Turns tree tree') :
    (runPasses passes tree .fresh .never).1 = .ok () ∧
      (runPasses passes tree .fresh .never).2.tree = tree' := by
  obtain ⟨value, hvalue, -, htree⟩ := h (.start tree .fresh .never) ⟨rfl, rfl⟩ rfl
  unfold runPasses Pipeline.run
  rw [Pipeline.passes_ofList]
  exact ⟨hvalue, htree⟩

/-- An invariant of the passes run so far holds after the last one, and the run
succeeds. -/
theorem runPasses_of_turns {I : List StandardPass → SyntaxTree → Prop}
    (hpass : ∀ done (pass : StandardPass) tree, I done tree →
      ∃ tree', pass.pass.run.Turns tree tree' ∧ I (done ++ [pass]) tree')
    {tree : SyntaxTree} (hstart : I [] tree) (passes : List StandardPass) :
    (runPasses passes tree .fresh .never).1 = .ok () ∧
      I passes (runPasses passes tree .fresh .never).2.tree := by
  obtain ⟨tree', hall, hlast⟩ : ∃ tree',
      (Pass.performAll (passes.map StandardPass.pass)).Turns tree tree' ∧ I passes tree' :=
    exists_of_invariant
      (fun rest => (Pass.performAll (rest.map StandardPass.pass)).Turns) (fun _ => .pure ())
      (fun hone hrest => .bind (Pass.turns_perform hone) fun _ => hrest)
      (fun done pass _ _ tree hdone => hpass done pass tree hdone) hstart
  obtain ⟨hok, htree⟩ := runPasses_of_performAll hall
  rw [htree]
  exact ⟨hok, hlast⟩

end Decompiled
