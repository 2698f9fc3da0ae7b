import Decompiled.Proofs.Run.Course
import Decompiled.Proofs.Run.Thinning

/-!
# What a cancelled run still writes

A run whose token is cancelled while its `n`-th event is written goes on to the
next abort point. The passes that escape identifiers and remove helper types
reach it before their next edit; the pass that removes attributes first
finishes the section that it is in. So whatever is still traced after the
`n`-th event is about that section.

* `Event.OfSection`: the events written about a section.
* `Run.Tailed`: what may be traced after the `n`-th event.
* `Run.Halted`: no pass is started after it.
* `Run.tailed_runPasses`: a run of passes is as these say.
-/

namespace Decompiled

open Work Attempt

/-- The event is about a section of attributes of an arena, and it was written
by the pass that removes attributes. -/
def Event.OfSection (a : Arena) (sectionIndex : NodeIndex) (event : Event) : Prop :=
  event.spans = [.transform AssemblyAttributes.pass.name] ∧
  ((∃ i fullName, event.notice = .removeAttribute i fullName ∧
      a.parent? i = some sectionIndex) ∨
    event.notice = .removeEmptySection sectionIndex)

/-- Whatever is traced after the `n`-th event is about one section, which all
events from the `n`-th on are about as well. No pass ends in between, so these
events are of one run of the pass. -/
def TailOfSection (a : Arena) (n : Nat) (events : List Event) : Prop :=
  ∀ j event, n ≤ j → events[j]? = some event → event.notice.level = .trace →
    ∃ sectionIndex, ∀ k, n ≤ k + 1 → k ≤ j →
      ∃ earlier, events[k]? = some earlier ∧ earlier.OfSection a sectionIndex

/-! ## Tails of lists of events -/

section Tails

variable {a : Arena} {n : Nat} {events news : List Event}

theorem tail_of_length_le (h : events.length ≤ n) : TailOfSection a n events := by
  intro j event hj hget
  have hlt : j < events.length := (List.getElem?_eq_some_iff.mp hget).1
  omega

/-- A summary may be written at any time. -/
theorem TailOfSection.append_summary (h : TailOfSection a n events) {summary : Event}
    (hlevel : summary.notice.level = .debug) :
    TailOfSection a n (events ++ [summary]) := by
  intro j event hj hget htrace
  rcases Nat.lt_or_ge j events.length with hlt | hge
  · rw [List.getElem?_append_left hlt] at hget
    obtain ⟨sectionIndex, hall⟩ := h j event hj hget htrace
    refine ⟨sectionIndex, fun k hk hkj => ?_⟩
    obtain ⟨earlier, hearlier, hof⟩ := hall k hk hkj
    refine ⟨earlier, ?_, hof⟩
    rw [List.getElem?_append_left (Nat.lt_of_le_of_lt hkj hlt), hearlier]
  · -- The summary itself is not traced.
    rw [List.getElem?_append_right hge] at hget
    obtain ⟨hpos, heq⟩ := List.getElem?_eq_some_iff.mp hget
    rw [← heq, List.getElem_singleton, hlevel] at htrace
    cases htrace

/-- The events of one section may follow events that do not reach the `n`-th. -/
theorem tail_append_section (hlen : events.length < n) {sectionIndex : NodeIndex}
    (hall : ∀ event ∈ news, event.OfSection a sectionIndex) :
    TailOfSection a n (events ++ news) := by
  intro j event hj hget _
  have hlt := (List.getElem?_eq_some_iff.mp hget).1
  rw [List.length_append] at hlt
  refine ⟨sectionIndex, fun k hk hkj => ?_⟩
  have hpos : k - events.length < news.length := by omega
  refine ⟨news[k - events.length], ?_, hall _ (List.getElem_mem hpos)⟩
  rw [List.getElem?_append_right (by omega), List.getElem?_eq_getElem hpos]

/-- How many passes have come to an end. -/
def passesEnded (events : List Event) : Nat :=
  events.countP fun event => event.notice.isEnd

theorem passesEnded_append (first second : List Event) :
    passesEnded (first ++ second) = passesEnded first + passesEnded second :=
  List.countP_append

/-- Where no pass has ended since, it does not matter how much of the log is
looked at. -/
theorem passesEnded_take {k : Nat} (hlen : events.length ≤ k) (hnone : passesEnded news = 0) :
    passesEnded ((events ++ news).take k) = passesEnded events := by
  have hle : passesEnded (news.take (k - events.length)) ≤ passesEnded news :=
    (List.take_sublist _ news).countP_le
  rw [List.take_append, List.take_of_length_le hlen, passesEnded_append]
  omega

end Tails

/-! ## Runs that are cancelled at an event -/

namespace Run

/-- The run is one that is cancelled while its `n`-th event is written, it has
the given spans open, and its arena hangs together as the arena `a` did. -/
structure Due (a : Arena) (n : Nat) (spans : List Span) (run : Run) : Prop where
  moment : run.moment = .atEvent n
  token_eq : run.token = ⟨decide (n ≤ run.log.size)⟩
  spans_eq : run.spans = spans
  links : run.tree.arena.WellLinked
  hung : ∀ {x p}, run.tree.arena.parent? x = some p → a.parent? x = some p

variable {a : Arena} {n : Nat} {spans : List Span} {run : Run}

/-- Writing an event keeps the token in step with the log. -/
theorem cancelIf_atEvent (n size : Nat) :
    (⟨decide (n ≤ size)⟩ : Token).cancelIf (Moment.atEvent n == .atEvent (size + 1)) =
      ⟨decide (n ≤ size + 1)⟩ := by
  have hnow : (Moment.atEvent n == Moment.atEvent (size + 1)) = decide (n = size + 1) := by
    by_cases heq : n = size + 1 <;> simp [heq]
  unfold Token.cancelIf
  rw [hnow, Token.mk.injEq, Bool.eq_iff_iff]
  simp only [Bool.or_eq_true, decide_eq_true_eq]
  omega

theorem Due.record (h : run.Due a n spans) (notice : Notice) :
    (Work.record notice run).2.Due a n spans := by
  refine ⟨h.moment, ?_, h.spans_eq, h.links, h.hung⟩
  rw [record_apply]
  show run.token.cancelIf (run.moment == Moment.atEvent (run.log.size + 1)) =
    ⟨decide (n ≤ (run.log.push _).size)⟩
  rw [h.token_eq, h.moment, cancelIf_atEvent, Array.size_push]

theorem Due.announce (h : run.Due a n spans) {notice : Notice} {change : Edit Unit}
    (hannounces : Announces run.tree notice change) :
    (Work.announce notice change run).2.Due a n spans := by
  have hrecord := h.record notice
  have hthins := hannounces.thins h.links
  rw [announce_apply]
  refine ⟨hrecord.moment, hrecord.token_eq, hrecord.spans_eq, hthins.links, fun hp => ?_⟩
  exact h.hung (hthins.hung hp)

/-- An abort point is passed only before the `n`-th event. -/
theorem Due.abortPoint (h : run.Due a n spans) :
    (Work.abortPoint run).2.Due a n spans ∧
      (Work.abortPoint run).2.log = run.log ∧
      (∀ value, (Work.abortPoint run).1 = .ok value → run.log.size < n) := by
  -- An abort point is not the moment that such a run is cancelled at.
  have htoken : run.token.cancelIf
      (run.moment == Moment.atAbortPoint (run.abortPoints + 1)) = run.token := by
    rw [h.moment]
    exact Token.cancelIf_false run.token
  rw [abortPoint_apply]
  simp only [htoken]
  refine ⟨⟨h.moment, h.token_eq, h.spans_eq, h.links, h.hung⟩, trivial, fun value hok => ?_⟩
  rcases hcancelled : run.token.cancelled with _ | _
  · -- A token that is not cancelled says that the event is still to come.
    rw [h.token_eq] at hcancelled
    exact Nat.lt_of_not_le (of_decide_eq_false hcancelled)
  · rw [hcancelled] at hok
    cases hok

theorem events_record (run : Run) (notice : Notice) :
    (Work.record notice run).2.events = run.events ++ [⟨notice, run.spans⟩] := by
  rw [record_apply]
  exact Array.toList_push

theorem events_announce (run : Run) (notice : Notice) (change : Edit Unit) :
    (Work.announce notice change run).2.events = run.events ++ [⟨notice, run.spans⟩] := by
  rw [announce_apply]
  exact Array.toList_push

theorem length_events (run : Run) : run.events.length = run.log.size := Array.length_toList

/-! ## One visit -/

/-- A run that is cancelled at its `n`-th event, with a tail as it should be. -/
def Tailed (a : Arena) (n : Nat) (spans : List Span) (run : Run) : Prop :=
  run.Due a n spans ∧ TailOfSection a n run.events

/-- A visit with one edit at most reaches the `n`-th event at most. -/
theorem tailed_announce (h : run.Due a n spans) (hearly : run.log.size < n) {notice : Notice}
    {change : Edit Unit} (hannounces : Announces run.tree notice change) :
    (Work.announce notice change run).2.Tailed a n spans := by
  refine ⟨h.announce hannounces, tail_of_length_le ?_⟩
  rw [events_announce, List.length_append, length_events]
  exact hearly

theorem tailed_of_early (h : run.Due a n spans) (hearly : run.log.size < n) :
    run.Tailed a n spans := by
  refine ⟨h, tail_of_length_le ?_⟩
  rw [length_events]
  omega

theorem tailed_visit_escape (h : run.Due a n spans) (hearly : run.log.size < n)
    (i : NodeIndex) : (EscapeIdentifiers.visit i run).2.Tailed a n spans := by
  rcases EscapeIdentifiers.visit_cases i run with hskip | ⟨before, after, hname, hafter, hvisit⟩
  · rw [hskip]
    exact tailed_of_early h hearly
  · have htailed := tailed_announce h hearly (.name hname hafter)
    rw [hvisit]
    exact state_bind (fun _ _ => htailed) fun _ _ => htailed

theorem tailed_visit_embedded (h : run.Due a n spans) (hearly : run.log.size < n)
    (i : NodeIndex) : (EmbeddedTypes.visit i run).2.Tailed a n spans := by
  rw [EmbeddedTypes.visit_apply]
  split
  · rename_i hhelper
    rw [Bool.and_eq_true] at hhelper
    have htailed : (EmbeddedTypes.removeHelper i run).2.Tailed a n spans := by
      rw [EmbeddedTypes.removeHelper_apply]
      rcases hp : run.tree.arena.parent? i with _ | p
      · exact tailed_of_early h hearly
      · exact tailed_announce h hearly (.helper hhelper.1 hhelper.2 hp)
    exact state_bind (fun _ _ => htailed) fun _ _ => htailed
  · exact tailed_of_early h hearly

/-- From `run` to `run'` nothing is written but events about one section. -/
def InSection (a : Arena) (n : Nat) (sectionIndex : NodeIndex) (run run' : Run) : Prop :=
  run.Due a n [.transform AssemblyAttributes.pass.name] →
    run'.Due a n [.transform AssemblyAttributes.pass.name] ∧
    ∃ news, run'.events = run.events ++ news ∧ ∀ event ∈ news, event.OfSection a sectionIndex

variable {sectionIndex : NodeIndex}

instance : Std.Refl (InSection a n sectionIndex) :=
  ⟨fun run h => ⟨h, [], (List.append_nil run.events).symm, fun _ habs => nomatch habs⟩⟩

instance : IsTrans Run (InSection a n sectionIndex) where
  trans := by
    intro first second third h h' hdue
    obtain ⟨hdue, news, hnews, hall⟩ := h hdue
    obtain ⟨hdue, later, hlater, hall'⟩ := h' hdue
    refine ⟨hdue, news ++ later, ?_, fun event hmem => ?_⟩
    · rw [hlater, hnews, List.append_assoc]
    · rcases List.mem_append.mp hmem with hmem | hmem
      · exact hall event hmem
      · exact hall' event hmem

theorem inSection_announce {notice : Notice} {change : Edit Unit}
    (hannounces : Announces run.tree notice change)
    (hof : (∃ i fullName, notice = .removeAttribute i fullName ∧
        a.parent? i = some sectionIndex) ∨ notice = .removeEmptySection sectionIndex) :
    InSection a n sectionIndex run (Work.announce notice change run).2 := by
  intro hdue
  refine ⟨hdue.announce hannounces, [⟨notice, run.spans⟩], events_announce run notice change,
    fun event hmem => ?_⟩
  rw [List.mem_singleton.mp hmem]
  exact ⟨hdue.spans_eq, hof⟩

theorem inSection_removeMatching {target : AttributeTarget}
    {rule : SyntaxTree → NodeIndex → Bool} (hrule : AssemblyAttributes.rule? target = some rule)
    (indices : List NodeIndex) (hindices : ∀ i ∈ indices, a.parent? i = some sectionIndex) :
    (AssemblyAttributes.removeMatching rule indices).Along (InSection a n sectionIndex) := by
  induction indices with
  | nil => exact .pure ()
  | cons i rest ih =>
      have hrest := ih fun j hj => hindices j (List.mem_cons_of_mem _ hj)
      intro run
      rw [AssemblyAttributes.removeMatching_cons]
      split
      · rename_i hmatch
        have hi := hindices i List.mem_cons_self
        refine Along.bind_at ?_ fun _ t _ => hrest t
        exact inSection_announce (.marker hrule hmatch) (.inl ⟨i, _, rfl, hi⟩)
      · exact hrest run

theorem inSection_removeIfEmpty (sectionIndex : NodeIndex) :
    (AssemblyAttributes.removeIfEmpty sectionIndex).Along (InSection a n sectionIndex) := by
  intro run
  rw [AssemblyAttributes.removeIfEmpty_apply]
  split
  · rename_i hempty
    exact inSection_announce (.emptySection hempty) (.inr rfl)
  · exact Std.Refl.refl run

/-- A visit with many edits may go beyond the `n`-th event, but not beyond the
section it is for. -/
theorem tailed_visit_assembly (h : run.Due a n [.transform AssemblyAttributes.pass.name])
    (hearly : run.log.size < n) (i : NodeIndex) :
    (AssemblyAttributes.visit i run).2.Tailed a n
      [.transform AssemblyAttributes.pass.name] := by
  have hin : InSection a n i run (AssemblyAttributes.visit i run).2 := by
    rw [AssemblyAttributes.visit_apply]
    rcases hrule : (run.tree.arena.attributeTarget? i).bind AssemblyAttributes.rule?
      with _ | rule
    · exact Std.Refl.refl run
    · obtain ⟨target, -, hrule⟩ := Option.bind_eq_some_iff.mp hrule
      have hattributes : ∀ j ∈ run.tree.arena.attributes i, a.parent? j = some i :=
        fun j hj => h.hung (h.links.listed_iff.mp (List.mem_filter.mp hj).1)
      refine Along.bind_at (inSection_removeMatching hrule _ hattributes run) fun _ t _ => ?_
      exact Along.bind (inSection_removeIfEmpty i) (fun _ => .pure 0) t
  obtain ⟨hdue, news, hnews, hall⟩ := hin h
  refine ⟨hdue, ?_⟩
  rw [hnews]
  exact tail_append_section (length_events run ▸ hearly) hall

/-! ## Sweeps, passes and pipelines -/

theorem Tailed.record (h : run.Tailed a n spans) (notice : Notice)
    (hlevel : notice.level = .debug) : (Work.record notice run).2.Tailed a n spans := by
  refine ⟨h.1.record notice, ?_⟩
  rw [events_record]
  exact h.2.append_summary hlevel

theorem Tailed.abortPoint (h : run.Tailed a n spans) :
    (Work.abortPoint run).2.Tailed a n spans := by
  obtain ⟨hdue, hlog, -⟩ := h.1.abortPoint
  refine ⟨hdue, ?_⟩
  unfold events
  rw [hlog]
  exact h.2

theorem Tailed.visitAll {sweep : Sweep}
    (hvisit : ∀ {run : Run} i, run.Due a n spans → run.log.size < n →
      (sweep.visit i run).2.Tailed a n spans)
    (nodes : List NodeIndex) (changes : Nat) (h : run.Tailed a n spans) :
    (sweep.visitAll changes nodes run).2.Tailed a n spans := by
  induction nodes generalizing changes run with
  | nil => exact h
  | cons i rest ih =>
      obtain ⟨hdue, hlog, hearly⟩ := h.1.abortPoint
      simp only [Sweep.visitAll]
      refine state_bind (fun _ _ => h.abortPoint) fun value hpassed => ?_
      -- The abort point has been passed, so the visit begins before the event.
      have hbefore : (Work.abortPoint run).2.log.size < n := by
        rw [hlog]
        exact hearly value hpassed
      have hvisited := hvisit i hdue hbefore
      exact state_bind (fun _ _ => hvisited) fun more _ => ih (changes + more) hvisited

theorem Tailed.sweep {sweep : Sweep}
    (hvisit : ∀ {run : Run} i, run.Due a n spans → run.log.size < n →
      (sweep.visit i run).2.Tailed a n spans)
    (hfinish : ∀ {run : Run} count, run.Tailed a n spans →
      (sweep.finish count run).2.Tailed a n spans)
    (h : run.Tailed a n spans) : (sweep.run run).2.Tailed a n spans := by
  have hall := h.visitAll hvisit (sweep.nodes run.tree) 0
  unfold Sweep.run
  rw [look_bind_apply]
  exact state_bind (fun _ _ => hall) fun changes _ => hfinish changes hall

theorem Tailed.pass (pass : StandardPass) (h : run.Tailed a n [.transform pass.pass.name]) :
    (pass.pass.run run).2.Tailed a n [.transform pass.pass.name] := by
  cases pass with
  | escapeIdentifiers =>
      exact h.sweep (fun i hdue hearly => tailed_visit_escape hdue hearly i)
        fun count hall => hall.record (.escapedIdentifiers count) rfl
  | assemblyAttributes =>
      exact h.sweep (fun i hdue hearly => tailed_visit_assembly hdue hearly i) fun _ hall => hall
  | embeddedTypes =>
      exact h.sweep (fun i hdue hearly => tailed_visit_embedded hdue hearly i) fun _ hall => hall

/-- Once its `n`-th event is written, a run has started the passes that had ended
before that event and the one that wrote it. -/
def Halted (n : Nat) (run : Run) : Prop :=
  n ≤ run.log.size → run.started = passesEnded (run.events.take (n - 1)) + 1

/-- Between two passes, a run that still goes on has ended all that it has
started. -/
def Paced (n : Nat) (run : Run) : Prop :=
  (run.log.size < n → run.started = passesEnded run.events) ∧ run.Halted n

/-- From `run` to `run'` no pass is started and none ends. -/
def InPass (run run' : Run) : Prop :=
  run'.started = run.started ∧
    ∃ news, run'.events = run.events ++ news ∧ passesEnded news = 0

theorem Inside.inPass {run' : Run} (h : run.Inside run') : run.InPass run' := by
  obtain ⟨news, hnews, hall⟩ := h.events
  refine ⟨h.started, news, hnews, List.countP_eq_zero.mpr fun event hevent => ?_⟩
  rw [(hall event hevent).2]
  exact Bool.false_ne_true

/-- Within the pass that writes the `n`-th event, no more is started. -/
theorem InPass.halted {run' : Run} (h : run.InPass run') (hearly : run.log.size < n)
    (hstarted : run.started = passesEnded run.events + 1) : run'.Halted n := by
  obtain ⟨hsame, news, hnews, hnone⟩ := h
  intro _
  have hlen : run.events.length ≤ n - 1 := by
    rw [length_events]
    omega
  rw [hsame, hstarted, hnews, passesEnded_take hlen hnone]

/-- With its end a pass is counted as ended. -/
theorem InPass.paced {run' : Run} (h : run.InPass run') (hearly : run.log.size < n)
    (hstarted : run.started = passesEnded run.events + 1) (removed : Nat) (spans : List Span) :
    ({ (Work.record (.transformFinished removed) run').2 with spans := spans } : Run).Paced
      n := by
  have hhalted := h.halted hearly hstarted
  obtain ⟨hsame, news, hnews, hnone⟩ := h
  have hevents : (Work.record (.transformFinished removed) run').2.events =
      run'.events ++ [⟨.transformFinished removed, run'.spans⟩] := events_record run' _
  have hsize : (Work.record (.transformFinished removed) run').2.log.size =
      run'.log.size + 1 := by
    rw [record_apply]
    exact Array.size_push _
  constructor
  · intro _
    show run'.started = passesEnded (Work.record (.transformFinished removed) run').2.events
    rw [hevents, hnews, passesEnded_append, passesEnded_append, hnone, hsame, hstarted]
    rfl
  · -- The notice of the end is no earlier than the `n`-th event.
    intro hreached
    replace hreached : n ≤ run'.log.size + 1 := by rwa [← hsize]
    have hbefore : n - 1 ≤ run'.events.length := by
      rw [length_events]
      omega
    show run'.started =
      passesEnded ((Work.record (.transformFinished removed) run').2.events.take (n - 1)) + 1
    rw [hevents, List.take_append_of_le_length hbefore, hnews]
    have hlen : run.events.length ≤ n - 1 := by
      rw [length_events]
      omega
    rw [hsame, hstarted, passesEnded_take hlen hnone]

/-- Opening and closing spans and counting passes changes nothing else. -/
theorem Tailed.inSpans (h : run.Tailed a n spans) (started : Nat) (outer : List Span) :
    ({ run with started := started, spans := outer } : Run).Tailed a n outer :=
  ⟨⟨h.1.moment, h.1.token_eq, rfl, h.1.links, h.1.hung⟩, h.2⟩

theorem Tailed.perform (pass : StandardPass) (h : run.Tailed a n []) (hpaced : run.Paced n) :
    (pass.pass.perform run).2.Tailed a n [] ∧
    (pass.pass.perform run).2.Halted n ∧
    (∀ value, (pass.pass.perform run).1 = .ok value → (pass.pass.perform run).2.Paced n) := by
  obtain ⟨-, hlog, hearly⟩ := h.1.abortPoint
  have htailed := h.abortPoint
  have hstarted : (Work.abortPoint run).2.started = run.started := rfl
  rw [Pass.perform_apply]
  rcases hpoint : Work.abortPoint run with ⟨_ | value, passed⟩
  · rw [hpoint] at htailed hstarted hlog
    refine ⟨htailed, ?_, fun _ habs => nomatch habs⟩
    unfold Halted events
    rw [hstarted, hlog]
    exact hpaced.2
  · rw [hpoint] at htailed hstarted hlog hearly
    have hearly : run.log.size < n := hearly value rfl
    have hbefore : passed.log.size < n := by rwa [← hlog] at hearly
    have hcounted : passed.started + 1 = passesEnded passed.events + 1 := by
      unfold events
      rw [hstarted, hlog, hpaced.1 hearly]
      rfl
    have hspans : passed.spans = [] := htailed.1.spans_eq
    have hinner : passed.spans ++ [.transform pass.pass.name] =
        [.transform pass.pass.name] := by
      rw [hspans]
      rfl
    simp only
    rw [hinner, hspans]
    have hopened := (htailed.inSpans (passed.started + 1) [.transform pass.pass.name]).pass pass
    have hin := (pass.inside_run
      { passed with
        started := passed.started + 1, spans := [.transform pass.pass.name] }).inPass
    rcases hran : pass.pass.run
        { passed with started := passed.started + 1, spans := [.transform pass.pass.name] }
      with ⟨_ | _, ended⟩
    · -- A pass that fails is the last one, whether the event came or not.
      rw [hran] at hopened hin
      have hhalted := hin.halted hbefore hcounted
      exact ⟨hopened.inSpans ended.started [], hhalted, fun _ habs => nomatch habs⟩
    · rw [hran] at hopened hin
      have hnext := hin.paced hbefore hcounted
        (passed.tree.arena.liveCount - ended.tree.arena.liveCount) []
      have hclosed := (hopened.record (.transformFinished
        (passed.tree.arena.liveCount - ended.tree.arena.liveCount)) rfl).inSpans
          ended.started []
      exact ⟨hclosed, hnext.2, fun _ _ => hnext⟩

theorem Tailed.performAll (passes : List StandardPass) (h : run.Tailed a n [])
    (hpaced : run.Paced n) :
    (Pass.performAll (passes.map StandardPass.pass) run).2.Tailed a n [] ∧
    (Pass.performAll (passes.map StandardPass.pass) run).2.Halted n := by
  induction passes generalizing run with
  | nil => exact ⟨h, hpaced.2⟩
  | cons pass rest ih =>
      obtain ⟨hperformed, hhalted, hnext⟩ := h.perform pass hpaced
      simp only [List.map_cons, Pass.performAll]
      exact state_bind (P := fun run => run.Tailed a n [] ∧ run.Halted n)
        (fun _ _ => ⟨hperformed, hhalted⟩) fun value hok => ih hperformed (hnext value hok)

/-- A run of passes that is cancelled while its `n`-th event is written. -/
theorem tailed_runPasses (passes : List StandardPass) {tree : SyntaxTree}
    (hlinks : tree.arena.WellLinked) (hpos : 1 ≤ n) :
    (runPasses passes tree .fresh (.atEvent n)).2.Tailed tree.arena n [] ∧
    (runPasses passes tree .fresh (.atEvent n)).2.Halted n := by
  have hdue : (Run.start tree .fresh (.atEvent n)).Due tree.arena n [] := by
    refine ⟨rfl, ?_, rfl, hlinks, fun hp => hp⟩
    show Token.fresh = ⟨decide (n ≤ 0)⟩
    rw [decide_eq_false (by omega)]
    rfl
  have hpaced : (Run.start tree .fresh (.atEvent n)).Paced n := by
    refine ⟨fun _ => rfl, fun hreached => ?_⟩
    replace hreached : n ≤ 0 := hreached
    omega
  unfold runPasses Pipeline.run
  rw [Pipeline.passes_ofList]
  exact Tailed.performAll passes (tailed_of_early hdue hpos) hpaced

end Run

end Decompiled
