import Decompiled.Proofs.Batch.Schedule

/-!
# A member and the same run alone

A member of a team is where the run would be alone after so many steps, but for
the token, or it has met an abort point with a cancelled token and winds down.

* `Member.Follows`: a member on the way of a run alone.
* `Member.follows_moves`: any schedule keeps it there.
* `Member.Ready.outcome_timed`: a run alone that is cancelled at an abort point.
* `Member.Follows.of_done`: so a member ends as the run alone, or at one of its
  abort points.
* `Member.exists_endsWithin`: it does end, if it gets its turns.
-/

namespace Decompiled

/-- The next move matters for the member of a number. -/
def Move.concerns (index : Nat) : Move → Bool
  | .cancel => true
  | .advance other => other == index

/-- To an act it makes no difference when the token is cancelled, as long as that
is not while an event is written. -/
theorem Act.work_with (a : Act) (run : Run) (token : Token) {moment : Moment}
    (hmoment : ∀ n, (moment == .atEvent n) = false) :
    a.work { run with token, moment } =
      ((a.work run).1, { (a.work run).2 with token, moment }) := by
  cases a with
  | record notice =>
      have hkept : token.cancelIf (moment == .atEvent (run.log.size + 1)) = token := by
        rw [hmoment, Token.cancelIf_false]
      show Work.record notice _ = ((Work.record notice run).1, _)
      rw [Work.record_apply, Work.record_apply, hkept]
      rfl
  | edit change =>
      show Work.edit change _ =
        ((Work.edit change run).1, { (Work.edit change run).2 with token, moment })
      rw [Work.edit_apply, Work.edit_apply]
  | noteStart => rfl
  | enter _ => rfl
  | leave => rfl

/-- When its time has come, a run does not get past the abort point. -/
theorem Work.abortPoint_now (run : Run)
    (h : run.moment = .atAbortPoint (run.abortPoints + 1)) :
    abortPoint run = (.error .cancelled,
      { run with token := run.token.cancel, abortPoints := run.abortPoints + 1 }) := by
  have hcancel : (run.token.cancelIf true).cancelled = true := Bool.or_true _
  rw [abortPoint_apply, h, beq_self_eq_true]
  exact congrArg (·, _) (if_pos hcancel)

/-- Work that winds down leaves the tree alone. -/
theorem Steps.WindsDown.perform {α : Type} {steps : Steps α} (h : steps.WindsDown) (run : Run) :
    (steps.perform run).1 = .error .cancelled ∧ (steps.perform run).2.tree = run.tree := by
  induction steps generalizing run with
  | done _ => exact ⟨h, rfl⟩
  | look _ _ => exact h.elim
  | check _ _ _ _ => exact h.elim
  | act a next ih =>
      obtain ⟨rfl, hnext⟩ := h
      exact ih _ (hnext _) _

namespace Member

variable {start member : Member} {index : Nat} {token : Token} {moves : List Move}

/-- A run with its steps before anybody has cancelled it. -/
structure Ready (member : Member) : Prop where
  moment : member.run.moment = .never
  token : member.run.token = .fresh
  orderly : member.steps.Orderly

theorem Ready.advance (h : member.Ready) : member.advance.Ready := by
  obtain ⟨hmoment, htoken⟩ := member.advance_quiet h.moment
  refine ⟨hmoment, htoken.trans h.token, ?_⟩
  have horderly := h.orderly
  unfold Member.advance
  rcases hsteps : member.steps with _ | next | ⟨passed, stopped⟩ | ⟨a, next⟩
  · rw [hsteps] at horderly
    simp only
    rw [hsteps]
    exact horderly
  · rw [hsteps] at horderly
    exact horderly member.run.tree
  · rw [hsteps] at horderly
    simp only
    rw [Work.abortPoint_never h.moment, h.token]
    exact horderly.1
  · rw [hsteps] at horderly
    exact horderly (a.work member.run).1

theorem Ready.iterate (h : start.Ready) (k : Nat) : (Member.advance^[k] start).Ready := by
  induction k with
  | zero => exact h
  | succ k ih =>
      rw [Function.iterate_succ_apply']
      exact ih.advance

theorem outcome_iterate (start : Member) (k : Nat) :
    (Member.advance^[k] start).outcome = start.outcome := by
  induction k with
  | zero => rfl
  | succ k ih => rw [Function.iterate_succ_apply', outcome_advance, ih]

/-- With another token a step is the same, unless it is an abort point and the
token is cancelled. -/
theorem Ready.advance_under (h : member.Ready) (token : Token) :
    (member.under token).advance = member.advance.under token ∨
    token.cancelled = true ∧ ∃ passed stopped, member.steps = .check passed stopped ∧
      (member.under token).advance.steps = stopped ∧
      (member.under token).advance.run.tree = member.run.tree ∧
      (member.under token).advance.run.token = token := by
  rcases member with ⟨steps, run⟩
  obtain ⟨hmoment, htoken, -⟩ := h
  cases steps with
  | done _ => exact .inl rfl
  | look _ => exact .inl rfl
  | check passed stopped =>
      have hunder : ({ run with token } : Run).moment = .never := hmoment
      unfold Member.advance Member.under
      simp only
      rw [Work.abortPoint_never hunder, Work.abortPoint_never hmoment]
      simp only
      rcases hcancelled : token.cancelled with _ | _
      · left
        replace htoken : run.token = .fresh := htoken
        rw [htoken]
        rfl
      · exact .inr ⟨rfl, passed, stopped, rfl, rfl, rfl, rfl⟩
  | act a next =>
      have hnever : ∀ n, (run.moment == .atEvent n) = false := by
        rw [hmoment]
        exact fun _ => rfl
      have hwork := a.work_with run token hnever
      left
      unfold Member.advance Member.under
      simp only
      rw [hwork, (a.work_never hmoment).1, ← hmoment]

/-! ## Cancelled at an abort point -/

/-- The same run, whose token is cancelled just before its `n`-th abort point. -/
def timed (n : Nat) (member : Member) : Member :=
  { member with run := { member.run with moment := .atAbortPoint n } }

/-- Abort points are counted one by one. -/
theorem Ready.abortPoints_advance (h : member.Ready) :
    member.run.abortPoints ≤ member.advance.run.abortPoints := by
  rcases member with ⟨steps, run⟩
  obtain ⟨hmoment, htoken, -⟩ := h
  cases steps with
  | done _ => exact Nat.le_refl _
  | look _ => exact Nat.le_refl _
  | check passed stopped =>
      unfold Member.advance
      simp only
      rcases hpoint : Work.abortPoint run with ⟨_ | ⟨⟩, left⟩ <;>
        · obtain ⟨-, rfl⟩ := Prod.mk.inj hpoint
          exact Nat.le_succ _
  | act a _ => exact Nat.le_of_eq (a.work_never hmoment).2.2.symm

/-- The timed run takes the same steps before its time has come. -/
theorem Ready.advance_timed (h : member.Ready) {n : Nat}
    (hearly : member.advance.run.abortPoints < n) :
    (member.timed n).advance = member.advance.timed n := by
  rcases member with ⟨steps, run⟩
  obtain ⟨hmoment, htoken, -⟩ := h
  replace hmoment : run.moment = .never := hmoment
  replace htoken : run.token = .fresh := htoken
  cases steps with
  | done _ => rfl
  | look _ => rfl
  | check passed stopped =>
      have hpoint : Work.abortPoint run =
          (.ok (), { run with abortPoints := run.abortPoints + 1 }) := by
        rw [Work.abortPoint_never hmoment, htoken]
        rfl
      have hne : Moment.atAbortPoint n ≠ .atAbortPoint (run.abortPoints + 1) := by
        unfold Member.advance at hearly
        simp only [hpoint] at hearly
        intro habs
        exact absurd (Moment.atAbortPoint.inj habs) (Nat.ne_of_gt hearly)
      have htimed : Work.abortPoint { run with moment := .atAbortPoint n } =
          (.ok (), { run with moment := .atAbortPoint n, abortPoints := run.abortPoints + 1 }) := by
        rw [Work.abortPoint_apply]
        simp only
        rw [beq_false_of_ne hne, Token.cancelIf_false, htoken]
        rfl
      unfold Member.advance Member.timed
      simp only
      rw [hpoint, htimed]
  | act a next =>
      have hnever : ∀ m, (Moment.atAbortPoint n == .atEvent m) = false := fun _ => rfl
      have hwork := a.work_with run run.token hnever
      unfold Member.advance Member.timed
      simp only
      rw [hwork, ← (a.work_never hmoment).2.1]

theorem Ready.iterate_timed (h : start.Ready) {k n : Nat}
    (hearly : (Member.advance^[k] start).run.abortPoints < n) :
    Member.advance^[k] (start.timed n) = (Member.advance^[k] start).timed n := by
  induction k with
  | zero => rfl
  | succ k ih =>
      rw [Function.iterate_succ_apply'] at hearly
      rw [Function.iterate_succ_apply', Function.iterate_succ_apply',
        ih (Nat.lt_of_le_of_lt (h.iterate k).abortPoints_advance hearly),
        (h.iterate k).advance_timed hearly]

/-- Cancelled at the abort point that it comes to, a run ends there. -/
theorem Ready.outcome_timed (h : start.Ready) {k : Nat} {passed stopped : Steps Unit}
    (hsteps : (Member.advance^[k] start).steps = .check passed stopped) :
    let stop := Member.advance^[k] start
    (start.timed (stop.run.abortPoints + 1)).outcome.1 = .error .cancelled ∧
      (start.timed (stop.run.abortPoints + 1)).outcome.2.tree = stop.run.tree := by
  intro stop
  have horderly := (h.iterate k).orderly
  rw [hsteps] at horderly
  have hthere := h.iterate_timed (Nat.lt_succ_self stop.run.abortPoints)
  rw [← outcome_iterate _ k, hthere]
  -- Its time has come, and what is left is to wind down.
  have hpoint := Work.abortPoint_now (stop.timed (stop.run.abortPoints + 1)).run rfl
  have houtcome : (stop.timed (stop.run.abortPoints + 1)).outcome =
      stopped.perform { (stop.timed (stop.run.abortPoints + 1)).run with
        token := stop.run.token.cancel, abortPoints := stop.run.abortPoints + 1 } := by
    show stop.steps.perform _ = _
    rw [hsteps]
    simp only [Steps.perform]
    rw [hpoint]
    rfl
  rw [houtcome]
  exact horderly.2.perform _

/-! ## On the way of the run alone -/

/-- The run alone comes to an abort point with this tree. -/
def Checks (start : Member) (tree : SyntaxTree) : Prop :=
  ∃ k passed stopped, (Member.advance^[k] start).steps = .check passed stopped ∧
    (Member.advance^[k] start).run.tree = tree

/-- The member is where the run alone is after so many steps, or it has been
stopped at an abort point of that run. -/
def Follows (start member : Member) : Prop :=
  (∃ k, member = (Member.advance^[k] start).under member.run.token) ∨
  (member.run.token.cancelled = true ∧ member.steps.WindsDown ∧ start.Checks member.run.tree)

theorem Follows.advance (h : start.Follows member) (hready : start.Ready) :
    start.Follows member.advance := by
  rcases h with ⟨k, heq⟩ | ⟨hcancelled, hwinds, hchecks⟩
  · rw [heq]
    rcases (hready.iterate k).advance_under member.run.token with
      hsame | ⟨hcancelled, passed, stopped, hsteps, hnext, htree, htoken⟩
    · refine .inl ⟨k + 1, ?_⟩
      rw [hsame, Function.iterate_succ_apply']
      rfl
    · refine .inr ⟨?_, ?_, k, passed, stopped, hsteps, htree.symm⟩
      · rw [htoken]
        exact hcancelled
      · rw [hnext]
        have horderly := (hready.iterate k).orderly
        rw [hsteps] at horderly
        exact horderly.2
  · -- All that is left to be done is to leave spans.
    right
    unfold Member.advance
    rcases hsteps : member.steps with _ | next | ⟨passed, stopped⟩ | ⟨a, next⟩
    · exact ⟨hcancelled, hwinds, hchecks⟩
    · rw [hsteps] at hwinds
      exact hwinds.elim
    · rw [hsteps] at hwinds
      exact hwinds.elim
    · rw [hsteps] at hwinds
      obtain ⟨rfl, hnext⟩ := hwinds
      exact ⟨hcancelled, hnext _, hchecks⟩

theorem Follows.move (h : start.Follows member) (hready : start.Ready) (move : Move) :
    start.Follows (member.move index move) := by
  cases move with
  | cancel =>
      rcases h with ⟨k, heq⟩ | ⟨-, hwinds, hchecks⟩
      · left
        refine ⟨k, ?_⟩
        show member.under member.run.token.cancel = _
        rw [heq]
        rfl
      · refine .inr ⟨?_, hwinds, hchecks⟩
        exact Bool.or_true _
  | advance other =>
      simp only [Member.move]
      split
      · exact h.advance hready
      · exact h

/-- Whatever the schedule, a member stays on its way. -/
theorem follows_moves (hready : start.Ready) (token : Token) (index : Nat) (moves : List Move) :
    start.Follows (moves.foldl (Member.move index) (start.under token)) := by
  have key : ∀ (moves : List Move) (member : Member), start.Follows member →
      start.Follows (moves.foldl (Member.move index) member) := by
    intro moves
    induction moves with
    | nil => exact fun _ h => h
    | cons move rest ih => exact fun member h => ih _ (h.move hready move)
  exact key moves _ (.inl ⟨0, rfl⟩)

/-- A member that has come to its end did so as the run alone does, or at one of
its abort points. -/
theorem Follows.of_done (h : start.Follows member) {result : Except TransformError Unit}
    (hdone : member.steps = .done result) :
    (result = start.outcome.1 ∧ member.run.tree = start.outcome.2.tree) ∨
    (member.run.token.cancelled = true ∧ result = .error .cancelled ∧
      start.Checks member.run.tree) := by
  rcases h with ⟨k, heq⟩ | ⟨hcancelled, hwinds, hchecks⟩
  · left
    rw [heq] at hdone
    replace hdone : (Member.advance^[k] start).steps = .done result := hdone
    have houtcome := outcome_of_done hdone
    rw [outcome_iterate] at houtcome
    rw [houtcome, heq]
    exact ⟨rfl, rfl⟩
  · rw [hdone] at hwinds
    exact .inr ⟨hcancelled, hwinds, hchecks⟩

/-! ## What a schedule cannot do -/

/-- Without a cancellation the end stays the same. -/
theorem outcome_moves (h : .cancel ∉ moves) :
    (moves.foldl (Member.move index) member).outcome = member.outcome := by
  induction moves generalizing member with
  | nil => rfl
  | cons move rest ih =>
      rw [List.mem_cons, not_or] at h
      rw [List.foldl_cons, ih h.2]
      cases move with
      | cancel => exact absurd rfl h.1
      | advance other =>
          simp only [Member.move]
          split
          · exact outcome_advance member
          · rfl

/-- A token that is cancelled was so before, or the schedule says so. -/
theorem cancelled_moves (hmoment : member.run.moment = .never)
    (h : (moves.foldl (Member.move index) member).run.token.cancelled = true) :
    member.run.token.cancelled = true ∨ .cancel ∈ moves := by
  induction moves generalizing member with
  | nil => exact .inl h
  | cons move rest ih =>
      rcases ih (move_quiet hmoment move) h with hcancelled | hmem
      · cases move with
        | cancel => exact .inr List.mem_cons_self
        | advance other =>
            simp only [Member.move] at hcancelled
            split at hcancelled
            · rw [(advance_quiet _ hmoment).2] at hcancelled
              exact .inl hcancelled
            · exact .inl hcancelled
      · exact .inr (List.mem_cons_of_mem _ hmem)

/-- The moves of others do not matter. -/
theorem foldl_concerns (moves : List Move) (member : Member) :
    (moves.filter (Move.concerns index)).foldl (Member.move index) member =
      moves.foldl (Member.move index) member := by
  induction moves generalizing member with
  | nil => rfl
  | cons move rest ih =>
      rw [List.filter_cons, List.foldl_cons]
      split
      · exact ih _
      · rename_i hother
        rw [ih]
        cases move with
        | cancel => exact absurd rfl hother
        | advance other =>
            have hne : other ≠ index := fun heq => hother (beq_iff_eq.mpr heq)
            simp only [Member.move, if_neg hne]

/-! ## Members that get their turns -/

/-- After so many turns of its own the member has come to its end, whatever the
token and the schedule. -/
def EndsWithin (index turns : Nat) (member : Member) : Prop :=
  ∀ (token : Token) (moves : List Move), turns ≤ moves.count (.advance index) →
    ∃ result, (moves.foldl (Member.move index) (member.under token)).steps = .done result

theorem EndsWithin.mono {turns more : Nat} (h : member.EndsWithin index turns)
    (hle : turns ≤ more) : member.EndsWithin index more :=
  fun token moves hcount => h token moves (Nat.le_trans hle hcount)

theorem endsWithin_done (result : Except TransformError Unit) (run : Run) :
    EndsWithin index 0 { steps := .done result, run } := by
  intro token moves _
  refine ⟨result, ?_⟩
  have key : ∀ (moves : List Move) (member : Member), member.steps = .done result →
      (moves.foldl (Member.move index) member).steps = .done result := by
    intro moves
    induction moves with
    | nil => exact fun _ h => h
    | cons move rest ih =>
        intro member h
        refine ih _ ?_
        cases move with
        | cancel => exact h
        | advance other =>
            simp only [Member.move]
            split
            · unfold advance
              rw [h]
              exact h
            · exact h
  exact key moves _ rfl

/-- One turn more than are needed after the next step. -/
theorem EndsWithin.of_advance {turns : Nat}
    (h : ∀ token, (member.under token).advance.EndsWithin index turns) :
    member.EndsWithin index (turns + 1) := by
  intro token moves hcount
  induction moves generalizing token with
  | nil => exact absurd hcount (Nat.not_succ_le_zero turns)
  | cons move rest ih =>
      cases move with
      | cancel =>
          rw [List.count_cons_of_ne (by simp)] at hcount
          exact ih token.cancel hcount
      | advance other =>
          by_cases heq : other = index
          · subst heq
            rw [List.count_cons_self] at hcount
            obtain ⟨result, hresult⟩ := h token (member.under token).advance.run.token rest
              (Nat.le_of_succ_le_succ hcount)
            refine ⟨result, ?_⟩
            rw [List.foldl_cons]
            simp only [Member.move, if_true]
            exact hresult
          · rw [List.count_cons_of_ne (by simpa using heq)] at hcount
            obtain ⟨result, hresult⟩ := ih token hcount
            refine ⟨result, ?_⟩
            rw [List.foldl_cons]
            simp only [Member.move, if_neg heq]
            exact hresult

/-- A token is cancelled or not, so one number of turns is enough for both. -/
theorem exists_endsWithin_of_advance
    (h : ∀ token, ∃ turns, (member.under token).advance.EndsWithin index turns) :
    ∃ turns, member.EndsWithin index turns := by
  obtain ⟨going, hgoing⟩ := h ⟨false⟩
  obtain ⟨cancelled, hcancelled⟩ := h ⟨true⟩
  refine ⟨max going cancelled + 1, .of_advance fun token => ?_⟩
  rcases token with ⟨_ | _⟩
  · exact hgoing.mono (Nat.le_max_left _ _)
  · exact hcancelled.mono (Nat.le_max_right _ _)

/-- Each run comes to its end after so many turns. -/
theorem exists_endsWithin (steps : Steps Unit) (run : Run) (index : Nat) :
    ∃ turns, EndsWithin index turns { steps, run } := by
  induction steps generalizing run with
  | done result => exact ⟨0, endsWithin_done result run⟩
  | look next ih => exact exists_endsWithin_of_advance fun token => ih _ _
  | check passed stopped ihpassed ihstopped =>
      refine exists_endsWithin_of_advance fun token => ?_
      unfold advance under
      simp only
      rcases Work.abortPoint { run with token } with ⟨_ | ⟨⟩, left⟩
      · exact ihstopped left
      · exact ihpassed left
  | act a next ih => exact exists_endsWithin_of_advance fun token => ih _ _

end Member

end Decompiled
