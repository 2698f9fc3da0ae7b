import Decompiled.Proofs.Run.Undisturbed

/-!
# What a step does and what it tells

An undisturbed run writes its notices in the spans that are open. What a step
makes of the tree and what it writes are told together here: what comes next is
written in the same spans, about the tree that the step has left.

* `Work.Yields`: the value of a step, the tree that it leaves, and what it writes.
* `Work.Yields.bind`: a sequence writes what its parts write.
* `Sweep.yields_visitAll`: so does a sweep, by an invariant of the visits made so
  far.
-/

namespace Decompiled

open Work Attempt

variable {α β : Type} {tree tree' tree'' : SyntaxTree} {spans : List Span}

namespace Work

/-- In each undisturbed run over the first tree with these spans open, the step
succeeds with the value, leaves the second tree and the open spans, and writes
the events. -/
def Yields (work : Work α) (tree : SyntaxTree) (spans : List Span) (value : α)
    (tree' : SyntaxTree) (written : List Event) : Prop :=
  ∀ run : Run, run.Undisturbed → run.tree = tree → run.spans = spans →
    ∃ left, work run = (.ok value, left) ∧ left.Undisturbed ∧ left.tree = tree' ∧
      left.spans = spans ∧ left.events = run.events ++ written

namespace Yields

variable {written written' : List Event}

theorem pure (value : α) : Yields (Pure.pure value : Work α) tree spans value tree [] :=
  fun run hrun htree hspans =>
    ⟨run, rfl, hrun, htree, hspans, (List.append_nil run.events).symm⟩

theorem abortPoint : Yields Work.abortPoint tree spans () tree [] :=
  fun run hrun htree hspans => ⟨_, hrun.abortPoint_eq, ⟨rfl, hrun.moment_eq⟩, htree, hspans,
    (List.append_nil run.events).symm⟩

theorem noteStart : Yields Pass.noteStart tree spans () tree [] :=
  fun run hrun htree hspans => ⟨_, rfl, ⟨hrun.token_eq, hrun.moment_eq⟩, htree, hspans,
    (List.append_nil run.events).symm⟩

/-- A notice is written in the spans that are open. -/
theorem record (notice : Notice) :
    Yields (Work.record notice) tree spans () tree [⟨notice, spans⟩] := by
  rintro run hrun htree rfl
  refine ⟨_, hrun.record_eq notice, ⟨rfl, hrun.moment_eq⟩, htree, rfl, ?_⟩
  exact Array.toList_push

/-- An edit writes nothing. -/
theorem edit {change : Edit α} {value : α} {after : Arena}
    (h : change tree.arena = (.ok value, after)) :
    Yields (Work.edit change) tree spans value { tree with arena := after } [] := by
  rintro run hrun rfl hspans
  refine ⟨{ run with tree := { run.tree with arena := after } }, ?_,
    ⟨hrun.token_eq, hrun.moment_eq⟩, rfl, hspans, (List.append_nil run.events).symm⟩
  rw [edit_apply, h]
  rfl

theorem bind {x : Work α} {f : α → Work β} {value : α} {value' : β}
    (hx : x.Yields tree spans value tree' written)
    (hf : (f value).Yields tree' spans value' tree'' written') :
    (x >>= f).Yields tree spans value' tree'' (written ++ written') := by
  intro run hrun htree hspans
  obtain ⟨mid, hmid, hmidrun, hmidtree, hmidspans, hmidevents⟩ := hx run hrun htree hspans
  obtain ⟨left, hleft, hleftrun, hlefttree, hleftspans, hleftevents⟩ :=
    hf mid hmidrun hmidtree hmidspans
  refine ⟨left, (bind_of_ok hmid).trans hleft, hleftrun, hlefttree, hleftspans, ?_⟩
  rw [hleftevents, hmidevents, List.append_assoc]

/-- A step that writes nothing adds nothing to what comes after it. -/
theorem quiet_bind {x : Work α} {f : α → Work β} {value : α} {value' : β}
    (hx : x.Yields tree spans value tree' [])
    (hf : (f value).Yields tree' spans value' tree'' written) :
    (x >>= f).Yields tree spans value' tree'' written :=
  .bind hx hf

/-- A question about the tree is answered by the tree. -/
theorem look_bind {question : SyntaxTree → α} {f : α → Work β} {value : β}
    (h : (f (question tree)).Yields tree spans value tree' written) :
    (Work.look question >>= f).Yields tree spans value tree' written := by
  rintro run hrun rfl
  rw [look_bind_apply]
  exact h run hrun rfl

theorem inSpan {work : Work α} {value : α} {span : Span}
    (h : work.Yields tree (spans ++ [span]) value tree' written) :
    (Work.inSpan span work).Yields tree spans value tree' written := by
  rintro run hrun htree rfl
  obtain ⟨left, hleft, hleftrun, hlefttree, -, hleftevents⟩ :=
    h { run with spans := run.spans ++ [span] } ⟨hrun.token_eq, hrun.moment_eq⟩ htree rfl
  rw [inSpan_apply, hleft]
  exact ⟨_, rfl, ⟨hleftrun.token_eq, hleftrun.moment_eq⟩, hlefttree, rfl, hleftevents⟩

/-- What a step makes of the tree is a part of what it yields. -/
theorem turns {work : Work α} {value : α} {written : List Span → List Event}
    (h : ∀ spans, work.Yields tree spans value tree' (written spans)) :
    work.Turns tree tree' := by
  intro run hrun htree
  obtain ⟨left, hleft, hleftrun, hlefttree, -⟩ := h run.spans run hrun htree rfl
  rw [hleft]
  exact ⟨value, rfl, hleftrun, hlefttree⟩

end Yields

end Work

/-- The visits of a sweep write their notices one after the other, if each of
them reports as many changes as it writes notices. Which notices these are follows
from an invariant of the visits made so far. -/
theorem Sweep.yields_visitAll {sweep : Sweep} {I : List NodeIndex → SyntaxTree → Prop}
    {told : NodeIndex → List Notice} {nodes : List NodeIndex}
    (hvisit : ∀ done i rest, nodes = done ++ i :: rest → ∀ tree, I done tree →
      ∃ tree', (∀ spans, (sweep.visit i).Yields tree spans (told i).length tree'
        ((told i).map (⟨·, spans⟩))) ∧ I (done ++ [i]) tree')
    (hstart : I [] tree) :
    ∃ tree', (∀ changes spans, (sweep.visitAll changes nodes).Yields tree spans
      (changes + (nodes.flatMap told).length) tree'
        ((nodes.flatMap told).map (⟨·, spans⟩))) ∧ I nodes tree' := by
  refine exists_of_invariant
    (fun rest tree tree' => ∀ changes spans, (sweep.visitAll changes rest).Yields tree spans
      (changes + (rest.flatMap told).length) tree' ((rest.flatMap told).map (⟨·, spans⟩)))
    (fun _ changes _ => .pure changes) (fun hone hall changes spans => ?_) hvisit hstart
  rw [List.flatMap_cons, List.length_append, ← Nat.add_assoc, List.map_append]
  exact .quiet_bind .abortPoint (.bind (hone spans) (hall _ spans))

end Decompiled
