import Decompiled.Proofs.Run.Edits

/-!
# The log as a journal

The traced notices of a run say all that it did to the arena: doing their edits
again, in order and from the arena it started with, leads to the arena it left.
This holds however the run ended, since nothing comes between a notice and its
edit.

* `replay`: the edits of a log, done again.
* `replay_runPasses`: a log is a complete journal.
-/

namespace Decompiled

/-- The edit that a notice is about. A helper type that was announced to go
with its namespace is looked up there again. -/
def Notice.redo : Notice → Edit Unit
  | .escapeIdentifier index _ after => Edit.setIdentifierName index after
  | .removeAttribute index _ => Edit.remove index
  | .removeEmptySection index => Edit.remove index
  | .removeEmbeddedType index false => Edit.remove index
  | .removeEmbeddedType index true => do
      let parent? ← Attempt.view fun a => a.parent? index
      match parent? with
      | some parent => Edit.remove parent
      | none => pure ()
  | .escapedIdentifiers _ => pure ()
  | .transformFinished _ => pure ()
  | .transformingTrees _ => pure ()
  | .subscriberKept => pure ()

/-- The arena after an edit that changes nothing when it fails. -/
def Arena.after (a : Arena) (change : Edit Unit) : Arena :=
  match change a with
  | (.ok (), b) => b
  | (.error _, _) => a

/-- The arena after the edits of the traced events of a log. -/
def replay (events : List Event) (a : Arena) : Arena :=
  (events.filter fun event => event.notice.level = .trace).foldl
    (fun a event => a.after event.notice.redo) a

/-! ## Edits that fail change nothing -/

theorem Arena.after_remove (a : Arena) (i : NodeIndex) :
    a.after (Edit.remove i) = (Edit.remove i a).2 := by
  unfold after
  rw [Edit.remove_apply]
  rcases a.live i with _ | node
  · rfl
  · by_cases hnone : node.parent.isNone
    · simp only [hnone, if_true]
    · rcases hparent : a.live node.parent with _ | above
      · simp only [hnone, Bool.false_eq_true, if_false, hparent]
      · by_cases hmem : i ∈ above.children
        · simp only [hnone, Bool.false_eq_true, if_false, hparent, hmem, if_true]
        · simp only [hnone, Bool.false_eq_true, if_false, hparent, hmem]

theorem Arena.after_setIdentifierName (a : Arena) (i : NodeIndex) (name : String) :
    a.after (Edit.setIdentifierName i name) = (Edit.setIdentifierName i name a).2 := by
  unfold after Edit.setIdentifierName
  rw [Attempt.bind_apply, Edit.liveOfKind_apply]
  rcases a.liveOfKind i .identifier with _ | node
  · rfl
  · rfl

/-- The edit of a notice is the one that was announced by it. -/
theorem Work.Announces.after_redo {tree : SyntaxTree} {notice : Notice} {change : Edit Unit}
    (h : Work.Announces tree notice change) :
    tree.arena.after notice.redo = (change tree.arena).2 := by
  cases h with
  | name hname hafter => exact Arena.after_setIdentifierName _ _ _
  | marker hrule hmatch => exact Arena.after_remove _ _
  | emptySection hempty => exact Arena.after_remove _ _
  | @helper i p hlive hhelper hp =>
      rcases EmbeddedTypes.isSingleMemberNamespace tree.arena p with _ | _
      · exact Arena.after_remove _ _
      · -- The namespace is found again as the parent of the helper.
        rw [if_pos rfl, ← Arena.after_remove]
        have hredo : (Notice.removeEmbeddedType i true).redo tree.arena =
            Edit.remove p tree.arena := by
          show (match tree.arena.parent? i with
            | some parent => Edit.remove parent
            | none => pure ()) tree.arena = _
          rw [hp]
        unfold Arena.after
        rw [hredo]

theorem Work.Announces.level_eq {tree : SyntaxTree} {notice : Notice} {change : Edit Unit}
    (h : Work.Announces tree notice change) : notice.level = .trace := by
  cases h <;> rfl

/-! ## Runs keep a journal -/

theorem replay_append (first second : List Event) (a : Arena) :
    replay (first ++ second) a = replay second (replay first a) := by
  unfold replay
  rw [List.filter_append, List.foldl_append]

/-- What has been written from `run` to `run'` says what has been done to the
arena in between. -/
def Journals (run run' : Run) : Prop :=
  ∃ news, run'.events = run.events ++ news ∧ replay news run.tree.arena = run'.tree.arena

theorem journals_of_same {run run' : Run} (hlog : run'.log = run.log)
    (harena : run'.tree.arena = run.tree.arena) : Journals run run' := by
  refine ⟨[], ?_, harena.symm⟩
  unfold Run.events
  rw [hlog, List.append_nil]

instance : Std.Refl Journals := ⟨fun _ => journals_of_same rfl rfl⟩

instance : IsTrans Run Journals where
  trans := by
    rintro first second third ⟨news, hlog, hreplay⟩ ⟨later, hlog', hreplay'⟩
    refine ⟨news ++ later, ?_, ?_⟩
    · rw [hlog', hlog, List.append_assoc]
    · rw [replay_append, hreplay, hreplay']

theorem journals_record {notice : Notice} (hlevel : notice.level = .debug) (run : Run) :
    Journals run (Work.record notice run).2 := by
  refine ⟨[⟨notice, run.spans⟩], ?_, ?_⟩
  · rw [Work.record_apply]
    exact Array.toList_push
  · simp [replay, hlevel, Work.record_apply]

theorem covers_journals : Work.CoversPasses Journals where
  abortPoint := fun _ => journals_of_same rfl rfl
  noteStart := fun _ => journals_of_same rfl rfl
  escaped := fun _ => journals_record rfl
  finished := fun _ => journals_record rfl
  edit := by
    intro run notice change h
    refine ⟨[⟨notice, run.spans⟩], ?_, ?_⟩
    · rw [Work.announce_apply]
      exact Array.toList_push
    · rw [Work.announce_apply]
      show replay [⟨notice, run.spans⟩] run.tree.arena = (change run.tree.arena).2
      rw [← h.after_redo]
      simp [replay, h.level_eq]
  close := fun h => h

/-- Doing the edits of a log again, from the arena that a run of passes started
with, leads to the arena that it left: for any passes in any order, whatever
the tree, its root and its annotations, whenever the token is cancelled, and
whether the run ends with success, cancelled or with an error. -/
theorem replay_runPasses (passes : List StandardPass) (tree : SyntaxTree) (token : Token)
    (moment : Moment) :
    replay (runPasses passes tree token moment).2.events tree.arena =
      (runPasses passes tree token moment).2.tree.arena := by
  obtain ⟨news, hlog, hreplay⟩ := along_runPasses covers_journals passes tree token moment
  have hall : (runPasses passes tree token moment).2.events = news := by
    rw [hlog]
    exact List.nil_append news
  rw [hall]
  exact hreplay

end Decompiled
