import Decompiled.Batch
import Decompiled.Proofs.Batch.Solo
import Decompiled.Proofs.Pass.Order

/-!
# Trees of a batch do not influence each other

The runs of a batch are under way at once, one for each tree, and share a token.
They may take their steps in any order, and the token may be cancelled at any
time.

* `Batch.team`: the runs of a batch before their first step.
* `Batch.outcome_member`: the end of each if nobody interferes.
* `trees_independent`: what becomes of each, whatever the schedule.
-/

namespace Decompiled

variable {passes : List StandardPass} {trees : List SyntaxTree} {tree : SyntaxTree}
  {token : Token} {index : Nat}

namespace Batch

/-- The work on one tree of a batch, in steps. -/
def stepwise (passes : List StandardPass) (index : Nat) :
    Stepwise (Work.inSpan (.tree index) (Pass.performAll (passes.map StandardPass.pass))) :=
  .inSpan (.tree index) (StandardPass.stepwisePerformAll passes)

/-- The run over a tree of a batch before its first step, with a token that
nobody has cancelled. -/
def member (passes : List StandardPass) (index : Nat) (tree : SyntaxTree) : Member where
  steps := (stepwise passes index).steps
  run := .start tree .fresh .never

/-- The runs of a batch before their first step. -/
def team (passes : List StandardPass) (trees : List SyntaxTree) (token : Token) : Team where
  token := token
  members := trees.mapIdx (member passes)

theorem ready_member (passes : List StandardPass) (index : Nat) (tree : SyntaxTree) :
    (member passes index tree).Ready :=
  ⟨rfl, rfl, (stepwise passes index).orderly⟩

theorem quiet_team (passes : List StandardPass) (trees : List SyntaxTree) (token : Token) :
    (team passes trees token).Quiet := by
  intro found hfound
  obtain ⟨index, hindex, rfl⟩ := List.mem_mapIdx.mp hfound
  rfl

/-- What a schedule does to the run over one tree. -/
theorem member?_play_team (htree : trees[index]? = some tree) (moves : List Move) :
    ((team passes trees token).play moves).member? index =
      some (moves.foldl (Member.move index) ((member passes index tree).under token)) := by
  have hmember : (team passes trees token).member? index =
      some ((member passes index tree).under token) := by
    unfold Team.member? team
    rw [List.getElem?_mapIdx, htree]
    rfl
  rw [Team.member?_play (quiet_team passes trees token), hmember]
  rfl

/-! ## The end of each run -/

theorem perform_stepwise (passes : List StandardPass) (index : Nat) :
    (stepwise passes index).steps.perform =
      Work.inSpan (.tree index) (Pipeline.ofList (passes.map StandardPass.pass)).run := by
  unfold Pipeline.run
  rw [Pipeline.passes_ofList]
  exact (stepwise passes index).perform_steps

/-- A run of passes in a span of its own does to the tree what it does without. -/
theorem inSpan_runPasses (passes : List StandardPass) (span : Span) (tree : SyntaxTree)
    (token : Token) (moment : Moment) :
    let ended := Work.inSpan span (Pipeline.ofList (passes.map StandardPass.pass)).run
      (.start tree token moment)
    ended.1 = (runPasses passes tree token moment).1 ∧
      ended.2.tree = (runPasses passes tree token moment).2.tree := by
  intro ended
  have hsteps : (StandardPass.stepwisePerformAll passes).steps.perform =
      (Pipeline.ofList (passes.map StandardPass.pass)).run := by
    unfold Pipeline.run
    rw [Pipeline.passes_ofList]
    exact (StandardPass.stepwisePerformAll passes).perform_steps
  have halike : (Run.start tree token moment).Alike
      { Run.start tree token moment with spans := [span] } := ⟨rfl, rfl, rfl, rfl, rfl⟩
  obtain ⟨hresult, hleft⟩ :=
    (StandardPass.stepwisePerformAll passes).steps.perform_alike halike
  rw [hsteps] at hresult hleft
  exact ⟨hresult, hleft.tree⟩

/-- So a member ends as the run over its tree alone, with the same timing. -/
theorem outcome_member (passes : List StandardPass) (index : Nat) (tree : SyntaxTree)
    (moment : Moment) :
    let ended := (stepwise passes index).steps.perform (.start tree .fresh moment)
    ended.1 = (runPasses passes tree .fresh moment).1 ∧
      ended.2.tree = (runPasses passes tree .fresh moment).2.tree := by
  rw [perform_stepwise]
  exact inSpan_runPasses passes (.tree index) tree .fresh moment

theorem token_runOne (passes : List StandardPass) (token : Token) (index : Nat)
    (tree : SyntaxTree) :
    (runOne (Pipeline.ofList (passes.map StandardPass.pass)) token index tree).run.token =
      token := by
  have hquiet := (stepwise passes index).steps.perform_never
    (rfl : (Run.start tree token .never).moment = .never)
  rw [perform_stepwise] at hquiet
  exact hquiet

/-- In a batch that is not cancelled the token stays as it is, so each tree is run
by itself. -/
theorem transformAll_get (passes : List StandardPass) (token : Token) :
    let pipeline := Pipeline.ofList (passes.map StandardPass.pass)
    (transformAll trees pipeline token)[index]? =
      trees[index]?.map (runOne pipeline token index) := by
  intro pipeline
  have key : ∀ (trees : List SyntaxTree) (first index : Nat),
      (runs pipeline token first trees)[index]? =
        trees[index]?.map (runOne pipeline token (first + index)) := by
    intro trees
    induction trees with
    | nil => intro first index; rfl
    | cons tree rest ih =>
        intro first index
        simp only [runs]
        rw [token_runOne passes token first tree]
        cases index with
        | zero => rfl
        | succ index =>
            rw [List.getElem?_cons_succ, List.getElem?_cons_succ, ih]
            congr 2
            omega
  have hall := key trees 0 index
  rw [Nat.zero_add] at hall
  exact hall

end Batch

/-- The runs of a batch over any trees, under any schedule. Each tree has its run,
and what has become of it depends on the tree, on its own turns and on when the
token was cancelled, but not on the other trees or on the turns of their runs.
Given enough turns the run comes to its end, whatever else happens. Its end is
that of the passes run over this tree alone; or it was cancelled, and the tree is
as the run alone has it at one of its abort points and leaves it when cancelled
there. Unless the token is cancelled on the way, the end is the one in the batch
that runs its trees one by one. -/
theorem trees_independent (passes : List StandardPass) (trees : List SyntaxTree)
    (token : Token) (moves : List Move) :
    let team := (Batch.team passes trees token).play moves
    ∀ index tree, trees[index]? = some tree →
    ∃ member, team.member? index = some member ∧
      (∀ others schedule, others[index]? = some tree →
        schedule.filter (Move.concerns index) = moves.filter (Move.concerns index) →
        ((Batch.team passes others token).play schedule).member? index = some member) ∧
      (∃ turns, ∀ more : List Move, turns ≤ more.count (.advance index) →
        ∃ ended result, (team.play more).member? index = some ended ∧
          ended.result? = some result) ∧
      ∀ result, member.result? = some result →
        (result = (runPasses passes tree .fresh .never).1 ∧
            member.run.tree = (runPasses passes tree .fresh .never).2.tree ∨
          (token.cancelled = true ∨ .cancel ∈ moves) ∧ result = .error .cancelled ∧
            ∃ k passed stopped,
              let stop := Member.advance^[k] (Batch.member passes index tree)
              let cut := runPasses passes tree .fresh (.atAbortPoint (stop.run.abortPoints + 1))
              stop.steps = .check passed stopped ∧ member.run.tree = stop.run.tree ∧
                cut.1 = .error .cancelled ∧ cut.2.tree = stop.run.tree) ∧
        (.cancel ∉ moves → ∃ outcome : Outcome,
          (Batch.transformAll trees (Pipeline.ofList (passes.map StandardPass.pass))
            token)[index]? = some outcome ∧
          result = outcome.result ∧ member.run.tree = outcome.run.tree) := by
  intro team index tree htree
  have hready := Batch.ready_member passes index tree
  refine ⟨_, Batch.member?_play_team htree moves, fun others schedule hother hsame => ?_, ?_,
    fun result hresult? => ?_⟩
  · rw [Batch.member?_play_team hother, ← Member.foldl_concerns schedule, hsame,
      Member.foldl_concerns]
  · obtain ⟨turns, hturns⟩ := Member.exists_endsWithin
      (Batch.member passes index tree).steps (Batch.member passes index tree).run index
    refine ⟨turns, fun more hmore => ?_⟩
    obtain ⟨result, hresult⟩ := hturns token (moves ++ more)
      (Nat.le_trans hmore (by rw [List.count_append]; exact Nat.le_add_left _ _))
    have hplay : team.play more = (Batch.team passes trees token).play (moves ++ more) :=
      List.foldl_append.symm
    rw [hplay]
    exact ⟨_, result, Batch.member?_play_team htree _, Member.result?_eq_some.mpr hresult⟩
  have hdone := Member.result?_eq_some.mp hresult?
  refine ⟨?_, fun hnever => ?_⟩
  · rcases (Member.follows_moves hready token index moves).of_done hdone with
      ⟨hresult, hleft⟩ | ⟨hcancelled, hresult, k, passed, stopped, hsteps, hstop⟩
    · left
      rw [hresult, hleft]
      exact Batch.outcome_member passes index tree .never
    · obtain ⟨hcut, hcuttree⟩ := hready.outcome_timed hsteps
      obtain ⟨hcut', hcuttree'⟩ := Batch.outcome_member passes index tree
        (.atAbortPoint ((Member.advance^[k] (Batch.member passes index tree)).run.abortPoints + 1))
      exact .inr ⟨Member.cancelled_moves rfl hcancelled, hresult, k, passed, stopped, hsteps,
        hstop.symm, hcut'.symm.trans hcut, hcuttree'.symm.trans hcuttree⟩
  · have houtcome := Member.outcome_of_done hdone
    rw [Member.outcome_moves hnever] at houtcome
    have halone : ((Batch.member passes index tree).under token).outcome =
        Work.inSpan (.tree index) (Pipeline.ofList (passes.map StandardPass.pass)).run
          (.start tree token .never) := congrFun (Batch.perform_stepwise passes index) _
    rw [halone] at houtcome
    refine ⟨Batch.runOne (Pipeline.ofList (passes.map StandardPass.pass)) token index tree, ?_,
      (congrArg Prod.fst houtcome).symm, (congrArg (fun ran => ran.2.tree) houtcome).symm⟩
    rw [Batch.transformAll_get, htree]
    rfl

/-- Two runs over the same tree take turns. The first comes to its end, and then
the token is cancelled. -/
def cancelledBatch : Team :=
  (Batch.team [.assemblyAttributes, .embeddedTypes] [mixedUnit, mixedUnit] .fresh).play
    ((List.replicate 18 [.advance 0, .advance 1, .advance 0]).flatten ++
      .cancel :: List.replicate 5 (.advance 1))

/-- The second run is stopped on the way, and the first ends as it does alone. -/
theorem trees_of_cancelledBatch :
    let solo := runPasses [.assemblyAttributes, .embeddedTypes] mixedUnit .fresh .never
    let start := Batch.member [.assemblyAttributes, .embeddedTypes] 1 mixedUnit
    ∃ first second k, cancelledBatch.member? 0 = some first ∧ first.result? = some solo.1 ∧
      first.run.tree = solo.2.tree ∧ cancelledBatch.member? 1 = some second ∧
      second.result? = some (.error .cancelled) ∧
      second.run.tree = (Member.advance^[k] start).run.tree := by
  have hsolo : (runPasses [.assemblyAttributes, .embeddedTypes] mixedUnit .fresh .never).1.isOk =
      true := by decide +kernel
  have hended : ((cancelledBatch.member? 0).bind Member.result?).map Except.isOk = some true ∧
      ((cancelledBatch.member? 1).bind Member.result?).map Except.isOk = some false := by
    decide +kernel
  obtain ⟨first, hfirst, -, -, hends⟩ := trees_independent
    [.assemblyAttributes, .embeddedTypes] [mixedUnit, mixedUnit] .fresh _ 0 mixedUnit rfl
  obtain ⟨second, hsecond, -, -, hstops⟩ := trees_independent
    [.assemblyAttributes, .embeddedTypes] [mixedUnit, mixedUnit] .fresh _ 1 mixedUnit rfl
  have hfirst' : cancelledBatch.member? 0 = some first := hfirst
  have hsecond' : cancelledBatch.member? 1 = some second := hsecond
  rw [hfirst', hsecond'] at hended
  obtain ⟨hfirstended, hsecondended⟩ := hended
  obtain ⟨result, hresult, hok⟩ := Option.map_eq_some_iff.mp hfirstended
  obtain ⟨result', hresult', hstopped⟩ := Option.map_eq_some_iff.mp hsecondended
  rcases (hends result hresult).1 with ⟨heq, htree⟩ | ⟨-, hcancelled, -⟩
  · rcases (hstops result' hresult').1 with ⟨heq', -⟩ | ⟨-, hcancelled, k, -, -, -, htree', -⟩
    · rw [heq', hsolo] at hstopped
      cases hstopped
    · rw [heq] at hresult
      rw [hcancelled] at hresult'
      exact ⟨first, second, k, hfirst', hresult, htree, hsecond', hresult', htree'⟩
  · rw [hcancelled] at hok
    cases hok

end Decompiled
