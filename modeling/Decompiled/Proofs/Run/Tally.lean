import Mathlib.Algebra.BigOperators.Group.List.Basic
import Mathlib.Algebra.GroupWithZero.Nat
import Decompiled.Proofs.Arena.Census
import Decompiled.Proofs.Arena.Reachable
import Decompiled.Proofs.Pass.Order
import Decompiled.Proofs.Run.Course
import Decompiled.Proofs.Run.Journal
import Decompiled.Proofs.Run.Thinning

/-!
# What passes report to have removed

The number that is reported after a pass is the difference of two counts over
the whole arena. It is exact: so many nodes were live before the pass and are
removed after it, and each of them has been removed with one notice, so the
sizes of the subtrees that were cut off add up to it.

* `Notice.cost`, `tally`: what is removed with one notice, and with many.
* `Run.Tallies`: the count goes down by what the notices say.
* `reports_exact`: for all reports of a run.
-/

namespace Decompiled

open Work Attempt

/-- The node that is removed right after a notice. A helper type may be announced
to go with its namespace. -/
def Notice.removes? (a : Arena) : Notice → Option NodeIndex
  | .removeAttribute index _ => some index
  | .removeEmptySection index => some index
  | .removeEmbeddedType index false => some index
  | .removeEmbeddedType index true => a.parent? index
  | _ => none

/-- How many nodes a walk from that node lists. -/
def Notice.cost (notice : Notice) (a : Arena) : Nat :=
  match notice.removes? a with
  | some index => (a.descendantsAndSelf index).length
  | none => 0

/-- What the notices of a log cost together, each in the arena that the edits of
those before it have led to. -/
def tally : List Event → Arena → Nat
  | [], _ => 0
  | event :: rest, a => event.notice.cost a + tally rest (replay [event] a)

/-- The number of removed nodes that a notice reports. -/
def Notice.reported : Notice → Nat
  | .transformFinished removed => removed
  | _ => 0

theorem Notice.reported_of_not_isEnd {notice : Notice} (h : notice.isEnd = false) :
    notice.reported = 0 := by
  cases notice with
  | transformFinished _ => cases h
  | _ => rfl

theorem tally_append (first second : List Event) (a : Arena) :
    tally (first ++ second) a = tally first a + tally second (replay first a) := by
  induction first generalizing a with
  | nil => exact (Nat.zero_add _).symm
  | cons event rest ih =>
      have hreplay : replay (event :: rest) a = replay rest (replay [event] a) :=
        replay_append [event] rest a
      rw [List.cons_append]
      simp only [tally]
      rw [ih, hreplay, Nat.add_assoc]

/-! ## What is removed is counted -/

/-- An announced edit that succeeds removes what its notice costs. -/
theorem Work.Announces.lost_eq {tree : SyntaxTree} {notice : Notice} {change : Edit Unit}
    (h : Work.Announces tree notice change) (hlinks : tree.arena.WellLinked)
    (hfits : tree.arena.Fits) (hok : (change tree.arena).1 = .ok ()) :
    tree.arena.lost (change tree.arena).2 = notice.cost tree.arena := by
  cases h with
  | name _ _ => exact Arena.lost_of_isLive fun x => Arena.isLive_rename _ _ x _
  | marker _ _ => exact Arena.lost_remove hlinks hfits hok
  | emptySection _ => exact Arena.lost_remove hlinks hfits hok
  | @helper i p _ _ hp =>
      rw [Arena.lost_remove hlinks hfits hok]
      unfold Notice.cost
      rcases EmbeddedTypes.isSingleMemberNamespace tree.arena p with _ | _
      · rfl
      · have hremoves : (Notice.removeEmbeddedType i true).removes? tree.arena = some p := hp
        rw [hremoves]
        rfl

/-- From `run` to `run'` the arena is thinned, and the number of live nodes goes
down by what the notices written in between cost. -/
def Run.Tallies (run run' : Run) : Prop :=
  run.tree.arena.WellLinked → run.tree.arena.Fits →
    run.tree.arena.Thins run'.tree.arena ∧
    ∃ news, run'.events = run.events ++ news ∧
      replay news run.tree.arena = run'.tree.arena ∧
      run.tree.arena.liveCount = run'.tree.arena.liveCount + tally news run.tree.arena

namespace Run.Tallies

variable {run mid run' : Run}

theorem of_tree {news : List Event} (htree : run'.tree = run.tree)
    (hevents : run'.events = run.events ++ news)
    (hnews : replay news run.tree.arena = run.tree.arena)
    (htally : tally news run.tree.arena = 0) : run.Tallies run' := by
  intro hlinks _
  rw [htree]
  refine ⟨.refl hlinks, news, hevents, hnews, ?_⟩
  rw [htally, Nat.add_zero]

theorem refl (run : Run) : run.Tallies run :=
  of_tree rfl (List.append_nil _).symm rfl rfl

theorem trans (h : run.Tallies mid) (h' : mid.Tallies run') : run.Tallies run' := by
  intro hlinks hfits
  obtain ⟨hthins, news, hnews, hreplay, hcount⟩ := h hlinks hfits
  have hfits' : mid.tree.arena.Fits := by
    unfold Arena.Fits
    rw [hthins.size]
    exact hfits
  obtain ⟨hthins', later, hlater, hreplay', hcount'⟩ := h' hthins.links hfits'
  refine ⟨hthins.trans hthins', news ++ later, ?_, ?_, ?_⟩
  · rw [hlater, hnews, List.append_assoc]
  · rw [replay_append, hreplay, hreplay']
  · rw [tally_append, hreplay, hcount, hcount']
    omega

/-- Each step of a pass is accounted for. -/
theorem of_step (h : Step run run') : run.Tallies run' := by
  cases h with
  | abortPoint _ => exact of_tree rfl (List.append_nil _).symm rfl rfl
  | escaped count =>
      have hevents : (record (.escapedIdentifiers count) run).2.events =
          run.events ++ [⟨.escapedIdentifiers count, run.spans⟩] := Array.toList_push
      exact of_tree rfl hevents rfl rfl
  | @edit notice change hannounces hok =>
      rw [announce_apply]
      intro hlinks hfits
      have hthins := hannounces.thins hlinks
      refine ⟨hthins, [⟨notice, run.spans⟩], Array.toList_push, ?_, ?_⟩
      · show replay [⟨notice, run.spans⟩] run.tree.arena = (change run.tree.arena).2
        rw [← hannounces.after_redo]
        simp [replay, hannounces.level_eq]
      · rw [Arena.liveCount_of_thins hfits hthins, hannounces.lost_eq hlinks hfits hok]
        rfl

theorem of_trail (h : Trail run run') : run.Tallies run' := by
  induction h with
  | refl => exact .refl run
  | tail _ hstep ih => exact ih.trans (of_step hstep)

end Run.Tallies

/-! ## The reports of a pipeline -/

/-- From `run` to `run'` no node is removed and none comes back. -/
def Run.SameLive (run run' : Run) : Prop :=
  ∀ x, run'.tree.arena.isLive x = run.tree.arena.isLive x

instance : Std.Refl Run.SameLive := ⟨fun _ _ => rfl⟩

instance : IsTrans Run Run.SameLive := ⟨fun _ _ _ h h' x => (h' x).trans (h x)⟩

/-- The pass that escapes identifiers removes nothing. -/
theorem EscapeIdentifiers.sameLive_run : EscapeIdentifiers.pass.run.Along Run.SameLive := by
  refine Sweep.along_run (fun _ _ => rfl) (fun i run => ?_) fun _ _ _ => rfl
  show Run.SameLive run (EscapeIdentifiers.visit i run).2
  rcases EscapeIdentifiers.visit_cases i run with hskip | ⟨before, after, -, -, hvisit⟩
  · rw [hskip]
    exact fun _ => rfl
  · rw [hvisit]
    refine Along.bind_at ?_ fun _ _ _ _ => rfl
    rw [announce_apply]
    exact fun x => Arena.isLive_rename _ _ x _

/-- What is reported of the leg is exact. -/
structure Leg.Counted (leg : Leg) : Prop where
  le : leg.stop.tree.arena.liveCount ≤ leg.start.tree.arena.liveCount
  lost : leg.removed = leg.start.tree.arena.lost leg.stop.tree.arena
  replayed : replay leg.written leg.start.tree.arena = leg.stop.tree.arena
  tallied : leg.result = .ok () → leg.removed = tally leg.written leg.start.tree.arena
  escape : leg.pass = StandardPass.escapeIdentifiers.pass → leg.removed = 0

/-- So it is for each pass of this library. -/
theorem Leg.counted {leg : Leg} {pass : StandardPass} (hpass : leg.pass = pass.pass)
    (hran : leg.pass.run leg.start = (leg.result, leg.stop))
    (hlinks : leg.start.tree.arena.WellLinked) (hfits : leg.start.tree.arena.Fits) :
    leg.Counted := by
  have hstop : (pass.pass.run leg.start).2 = leg.stop := by
    rw [← hpass, hran]
  have hwritten : ∀ {news}, leg.stop.events = leg.start.events ++ news → leg.written = news := by
    intro news hnews
    unfold Leg.written
    rw [hnews, List.drop_left]
  have hthins := (pass.along_run Run.covers_thins.toCovers leg.start).arena hlinks
  have hjournals := pass.along_run covers_journals.toCovers leg.start
  rw [hstop] at hthins hjournals
  have hcount := Arena.liveCount_of_thins hfits hthins
  have hremoved : leg.removed = leg.start.tree.arena.lost leg.stop.tree.arena := by
    unfold Leg.removed
    rw [hcount, Nat.add_sub_cancel_left]
  refine ⟨by omega, hremoved, ?_, fun hok => ?_, fun hescape => ?_⟩
  · obtain ⟨news, hnews, hreplay⟩ := hjournals
    rw [hwritten hnews, hreplay]
  · -- A pass that succeeds is a trail of steps that are accounted for.
    have hends := pass.trail_run leg.start
    rw [← hpass, hran, hok] at hends
    obtain ⟨-, news, hnews, -, htally⟩ := Run.Tallies.of_trail (hends.1 () rfl) hlinks hfits
    rw [hwritten hnews]
    unfold Leg.removed
    rw [htally, Nat.add_sub_cancel_left]
  · rw [hremoved]
    refine Arena.lost_of_isLive fun x => ?_
    have hlive := EscapeIdentifiers.sameLive_run leg.start x
    have hsame : leg.pass = EscapeIdentifiers.pass := hescape
    rw [← hsame, hran] at hlive
    exact hlive

namespace Leg

variable {legs : List Leg} {first last : SyntaxTree}

/-- Of legs that follow each other, each on the tree that the one before left,
the last leaves what has not been removed in any of them. -/
theorem liveCount_eq_sum
    (htrees : first :: legs.map (fun leg => leg.stop.tree) =
      legs.map (fun leg => leg.start.tree) ++ [last])
    (hless : ∀ leg ∈ legs,
      leg.stop.tree.arena.liveCount ≤ leg.start.tree.arena.liveCount) :
    (legs.map Leg.removed).sum + last.arena.liveCount = first.arena.liveCount := by
  induction legs generalizing first with
  | nil =>
      obtain ⟨rfl, -⟩ := List.cons.inj htrees
      exact Nat.zero_add _
  | cons leg rest ih =>
      obtain ⟨rfl, hrest⟩ := List.cons.inj htrees
      have hsum := ih hrest fun other hother => hless other (List.mem_cons_of_mem _ hother)
      have hleg := hless leg List.mem_cons_self
      rw [List.map_cons, List.sum_cons, Nat.add_assoc, hsum]
      exact Nat.sub_add_cancel hleg

/-- What is reported in legs that all succeed is what they removed. -/
theorem sum_reported (hok : ∀ leg ∈ legs, leg.result = .ok ())
    (hwritten : ∀ leg ∈ legs, ∀ event ∈ leg.written, event.notice.isEnd = false) :
    ((legs.flatMap fun leg => leg.written ++ leg.report).map
      fun event => event.notice.reported).sum = (legs.map Leg.removed).sum := by
  induction legs with
  | nil => rfl
  | cons leg rest ih =>
      have hrest := ih (fun other hother => hok other (List.mem_cons_of_mem _ hother))
        fun other hother => hwritten other (List.mem_cons_of_mem _ hother)
      have hquiet : (leg.written.map fun event => event.notice.reported).sum = 0 := by
        refine List.sum_eq_zero fun n hn => ?_
        obtain ⟨event, hevent, rfl⟩ := List.mem_map.mp hn
        exact Notice.reported_of_not_isEnd (hwritten leg List.mem_cons_self event hevent)
      have hreport : leg.report = [⟨.transformFinished leg.removed, leg.start.spans⟩] := by
        unfold report
        rw [hok leg List.mem_cons_self]
      rw [List.flatMap_cons, List.map_append, List.map_append, List.sum_append, List.sum_append,
        hrest, hquiet, hreport, Nat.zero_add]
      rfl

end Leg

/-- A run of passes over a tree with an index for each slot, with any root and
annotations. What is reported after a pass is how many nodes it removed: so many
slots were live before and no longer are. In a pass that succeeds that is also
what its notices cost, each at the moment it is written. The reports of a
successful run add up to the nodes that are gone in the end, and no slot is ever
given up. -/
theorem reports_exact {tree : SyntaxTree} (hreachable : tree.arena.Reachable)
    (hfits : tree.arena.Fits) (passes : List StandardPass) (token : Token) (moment : Moment) :
    let ended := runPasses passes tree token moment
    (∃ legs : List Leg,
      legs.map Leg.pass = (passes.map StandardPass.pass).take legs.length ∧
      (∀ leg ∈ legs, leg.pass.run leg.start = (leg.result, leg.stop)) ∧
      tree :: legs.map (fun leg => leg.stop.tree) =
        legs.map (fun leg => leg.start.tree) ++ [ended.2.tree] ∧
      ended.2.events = legs.flatMap (fun leg => leg.written ++ leg.report) ∧
      ∀ leg ∈ legs,
        let before := leg.start.tree.arena
        let after := leg.stop.tree.arena
        (∀ event ∈ leg.written, event.notice.isEnd = false) ∧
        after.liveCount ≤ before.liveCount ∧
        leg.removed = before.lost after ∧
        replay leg.written before = after ∧
        (leg.result = .ok () → leg.removed = tally leg.written before) ∧
        (leg.pass = StandardPass.escapeIdentifiers.pass → leg.removed = 0)) ∧
    (ended.1 = .ok () →
      (ended.2.events.map fun event => event.notice.reported).sum +
        ended.2.tree.arena.liveCount = tree.arena.liveCount) ∧
    ended.2.tree.arena.size = tree.arena.size := by
  intro ended
  obtain ⟨legs, hcourse⟩ := exists_course (passes.map StandardPass.pass) (.start tree token moment)
  have hended : Pass.performAll (passes.map StandardPass.pass) (.start tree token moment) =
      ended := by
    show _ = (Pipeline.ofList _).run _
    unfold Pipeline.run
    rw [Pipeline.passes_ofList]
  rw [hended] at hcourse
  have hstandard : ∀ pass ∈ passes.map StandardPass.pass,
      ∃ standard : StandardPass, pass = standard.pass := by
    intro pass hpass
    obtain ⟨standard, -, rfl⟩ := List.mem_map.mp hpass
    exact ⟨standard, rfl⟩
  -- The arena is well linked and of the same size throughout.
  obtain ⟨hgood, hlast⟩ := hcourse.along_trees
    (P := fun t => t.arena.WellLinked ∧ t.arena.size = tree.arena.size)
    (fun pass hpass run hrun => by
      obtain ⟨standard, rfl⟩ := hstandard pass hpass
      have hthins := (standard.along_run Run.covers_thins.toCovers run).arena hrun.1
      exact ⟨hthins.links, hthins.size.trans hrun.2⟩)
    ⟨hreachable.wellLinked hfits, rfl⟩
  have hinside : ∀ pass ∈ passes.map StandardPass.pass, ∀ run : Run,
      run.Inside (pass.run run).2 := by
    intro pass hpass run
    obtain ⟨standard, rfl⟩ := hstandard pass hpass
    exact standard.inside_run run
  have hcounts : ∀ leg ∈ legs, leg.Counted := by
    intro leg hleg
    obtain ⟨standard, hpass⟩ := hstandard leg.pass (hcourse.pass_mem hleg)
    obtain ⟨hlinks, hsize⟩ := hgood leg hleg
    have hfits' : leg.start.tree.arena.Fits := by
      unfold Arena.Fits
      rw [hsize]
      exact hfits
    exact Leg.counted hpass (hcourse.ran hleg).1 hlinks hfits'
  have hwritten : ∀ leg ∈ legs, ∀ event ∈ leg.written, event.notice.isEnd = false :=
    fun leg hleg event hevent => (Leg.written_inside (hcourse.inside hinside hleg) hevent).2
  have hevents := (hcourse.logs hinside).events
  refine ⟨⟨legs, hcourse.passes_eq, fun _ hleg => (hcourse.ran hleg).1, hcourse.trees, hevents,
    fun leg hleg => ?_⟩, fun hok => ?_, hlast.2⟩
  · have hcounted := hcounts leg hleg
    exact ⟨hwritten leg hleg, hcounted.le, hcounted.lost, hcounted.replayed, hcounted.tallied,
      hcounted.escape⟩
  · rw [hevents]
    show ((legs.flatMap fun leg => leg.written ++ leg.report).map _).sum + _ = _
    rw [Leg.sum_reported (hcourse.ok_iff.mp hok).2 hwritten]
    exact Leg.liveCount_eq_sum hcourse.trees fun leg hleg => (hcounts leg hleg).le

/-- A section goes with its attribute, and a namespace with the helper type in it.
When the same sections are looked at again, nothing is left to remove. -/
theorem reports_of_mixedUnit :
    let ended := runPasses [.escapeIdentifiers, .assemblyAttributes, .embeddedTypes,
      .assemblyAttributes] mixedUnit .fresh .never
    (ended.2.events.map Event.notice).filter Notice.isEnd =
        [.transformFinished 0, .transformFinished 3, .transformFinished 4,
          .transformFinished 0] ∧
      (ended.2.events.map fun event => event.notice.reported).sum =
        mixedUnit.arena.liveCount - ended.2.tree.arena.liveCount ∧
      ended.2.tree.arena.liveCount = 3 ∧
      ended.2.tree.arena.size = 10 ∧
      ∃ legs : List Leg,
        ended.2.events = legs.flatMap (fun leg => leg.written ++ leg.report) ∧
        ∀ leg ∈ legs, leg.result = .ok () →
          leg.removed = tally leg.written leg.start.tree.arena := by
  have hreachable : mixedUnit.arena.Reachable := Arena.reachable_build _
  obtain ⟨⟨legs, -, -, -, hevents, hlegs⟩, hsum, hsize⟩ :=
    reports_exact hreachable (by decide) [.escapeIdentifiers, .assemblyAttributes,
      .embeddedTypes, .assemblyAttributes] .fresh .never
  have hok : (runPasses [.escapeIdentifiers, .assemblyAttributes, .embeddedTypes,
      .assemblyAttributes] mixedUnit .fresh .never).1 = .ok () := by
    have hsucceeds : (runPasses [.escapeIdentifiers, .assemblyAttributes, .embeddedTypes,
        .assemblyAttributes] mixedUnit .fresh .never).1.isOk = true := by decide +kernel
    revert hsucceeds
    rcases (runPasses _ mixedUnit .fresh .never).1 with _ | ⟨⟩
    · exact fun habs => nomatch habs
    · exact fun _ => rfl
  have hslots : mixedUnit.arena.size = 10 := by decide
  exact ⟨by decide +kernel, Nat.eq_sub_of_add_eq (hsum hok), by decide +kernel,
    hsize.trans hslots, legs, hevents, fun leg hleg => (hlegs leg hleg).2.2.2.2.1⟩

end Decompiled
