import Mathlib.Logic.Function.Iterate
import Decompiled.Proofs.Batch.Steps

/-!
# Runs that take turns

Several runs are under way and share a token. A schedule says whose turn it is,
step by step, and when the token is cancelled. What becomes of one run depends
on its own turns and on the token, and on nothing that the others do.

* `Member`: a run under way. `Team`: some that share a token.
* `Steps.perform_alike`: what the end of a run goes by.
* `Team.member?_play`: what a schedule does to one member.
-/

namespace Decompiled

open Attempt

/-- A run under way, with the steps that it has left. -/
structure Member where
  steps : Steps Unit
  run : Run

/-- What happens next: somebody cancels the token, or a member takes a step. -/
inductive Move where
  | cancel
  | advance (index : Nat)
  deriving DecidableEq

namespace Member

/-- Take a step. -/
def advance (member : Member) : Member :=
  match member.steps with
  | .done _ => member
  | .look next => { member with steps := next member.run.tree }
  | .check passed stopped =>
      match Work.abortPoint member.run with
      | (.ok (), run) => { steps := passed, run }
      | (.error _, run) => { steps := stopped, run }
  | .act a next => { steps := next (a.work member.run).1, run := (a.work member.run).2 }

/-- The member, with the token as it is now. -/
def under (token : Token) (member : Member) : Member :=
  { member with run := { member.run with token } }

/-- What happens to the member of a number. -/
def move (index : Nat) (member : Member) : Move → Member
  | .cancel => member.under member.run.token.cancel
  | .advance other => if other = index then member.advance else member

/-- The result of a member that has come to its end. -/
def result? (member : Member) : Option (Except TransformError Unit) :=
  match member.steps with
  | .done result => some result
  | _ => none

/-- How the member ends if nobody interferes. -/
def outcome (member : Member) : Except TransformError Unit × Run :=
  member.steps.perform member.run

end Member

/-- Runs under way that share a token. -/
structure Team where
  token : Token
  members : List Member

namespace Team

/-- The next move. A member that takes a step finds the token as it is then. -/
def move (team : Team) : Move → Team
  | .cancel => { team with token := team.token.cancel }
  | .advance index =>
      match team.members[index]? with
      | none => team
      | some member =>
          let moved := (member.under team.token).advance
          { token := moved.run.token, members := team.members.set index moved }

/-- All moves of a schedule. -/
def play (team : Team) (moves : List Move) : Team := moves.foldl move team

/-- The member of a number as it is now. -/
def member? (team : Team) (index : Nat) : Option Member :=
  team.members[index]?.map (Member.under team.token)

end Team

/-! ## What the steps of a run go by -/

variable {α : Type} {run run' : Run}

/-- Two runs over one tree, as far as it matters for their steps. What they have
written, and in which spans, is left out. -/
structure Run.Alike (run run' : Run) : Prop where
  tree : run'.tree = run.tree
  token : run'.token = run.token
  moment : run'.moment = run.moment
  abortPoints : run'.abortPoints = run.abortPoints
  size : run'.log.size = run.log.size

theorem Work.abortPoint_alike (h : run.Alike run') :
    (abortPoint run').1 = (abortPoint run).1 ∧ (abortPoint run).2.Alike (abortPoint run').2 := by
  have htoken : run'.token.cancelIf (run'.moment == .atAbortPoint (run'.abortPoints + 1)) =
      run.token.cancelIf (run.moment == .atAbortPoint (run.abortPoints + 1)) := by
    rw [h.token, h.moment, h.abortPoints]
  rw [abortPoint_apply, abortPoint_apply]
  simp only
  rw [htoken]
  exact ⟨rfl, h.tree, rfl, h.moment, congrArg (· + 1) h.abortPoints, h.size⟩

theorem Act.work_alike (a : Act) (h : run.Alike run') :
    (a.work run').1 = (a.work run).1 ∧ (a.work run).2.Alike (a.work run').2 := by
  cases a with
  | record notice =>
      have htoken : run'.token.cancelIf (run'.moment == .atEvent (run'.log.size + 1)) =
          run.token.cancelIf (run.moment == .atEvent (run.log.size + 1)) := by
        rw [h.token, h.moment, h.size]
      refine ⟨rfl, h.tree, htoken, h.moment, h.abortPoints, ?_⟩
      show (run'.log.push _).size = (run.log.push _).size
      rw [Array.size_push, Array.size_push, h.size]
  | edit change =>
      show (Work.edit change run').1 = (Work.edit change run).1 ∧
        (Work.edit change run).2.Alike (Work.edit change run').2
      rw [Work.edit_apply, Work.edit_apply, h.tree]
      exact ⟨rfl, rfl, h.token, h.moment, h.abortPoints, h.size⟩
  | noteStart => exact ⟨rfl, h.tree, h.token, h.moment, h.abortPoints, h.size⟩
  | enter _ => exact ⟨rfl, h.tree, h.token, h.moment, h.abortPoints, h.size⟩
  | leave => exact ⟨rfl, h.tree, h.token, h.moment, h.abortPoints, h.size⟩

/-- Work in steps ends in the same way in both runs. -/
theorem Steps.perform_alike (steps : Steps α) (h : run.Alike run') :
    (steps.perform run').1 = (steps.perform run).1 ∧
      (steps.perform run).2.Alike (steps.perform run').2 := by
  induction steps generalizing run run' with
  | done _ => exact ⟨rfl, h⟩
  | look next ih =>
      simp only [perform]
      rw [h.tree]
      exact ih run.tree h
  | check passed stopped ihpassed ihstopped =>
      obtain ⟨hresult, hleft⟩ := Work.abortPoint_alike h
      simp only [perform]
      rcases hpoint : Work.abortPoint run with ⟨_ | ⟨⟩, left⟩ <;>
        rcases hpoint' : Work.abortPoint run' with ⟨_ | ⟨⟩, left'⟩ <;>
        rw [hpoint, hpoint'] at hresult hleft
      · exact ihstopped hleft
      · cases hresult
      · cases hresult
      · exact ihpassed hleft
  | act a next ih =>
      obtain ⟨hresult, hleft⟩ := a.work_alike h
      simp only [perform]
      rw [hresult]
      exact ih (a.work run).1 hleft

/-! ## Runs that nobody times -/

theorem Run.cancelIf_never (h : run.moment = .never) {now : Moment}
    (hnow : (Moment.never == now) = false) :
    run.token.cancelIf (run.moment == now) = run.token := by
  rw [h, hnow, Token.cancelIf_false]

theorem Work.abortPoint_never (h : run.moment = .never) :
    abortPoint run =
      (if run.token.cancelled then .error .cancelled else .ok (),
        { run with abortPoints := run.abortPoints + 1 }) := by
  have hnow : (Moment.never == .atAbortPoint (run.abortPoints + 1)) = false := rfl
  have htoken := run.cancelIf_never h hnow
  rw [abortPoint_apply, htoken]

theorem Act.work_never (a : Act) (h : run.moment = .never) :
    (a.work run).2.moment = .never ∧ (a.work run).2.token = run.token ∧
      (a.work run).2.abortPoints = run.abortPoints := by
  cases a with
  | record _ => exact ⟨h, Run.cancelIf_never h rfl, rfl⟩
  | edit change =>
      show (Work.edit change run).2.moment = .never ∧ (Work.edit change run).2.token = run.token ∧
        (Work.edit change run).2.abortPoints = run.abortPoints
      rw [Work.edit_apply]
      exact ⟨h, rfl, rfl⟩
  | noteStart => exact ⟨h, rfl, rfl⟩
  | enter _ => exact ⟨h, rfl, rfl⟩
  | leave => exact ⟨h, rfl, rfl⟩

/-- Work in steps leaves the token of such a run alone. -/
theorem Steps.perform_never (steps : Steps α) (h : run.moment = .never) :
    (steps.perform run).2.token = run.token := by
  induction steps generalizing run with
  | done _ => rfl
  | look next ih => exact ih run.tree h
  | check passed stopped ihpassed ihstopped =>
      simp only [perform]
      rw [Work.abortPoint_never h]
      rcases run.token.cancelled with _ | _
      · exact ihpassed h
      · exact ihstopped h
  | act a next ih =>
      obtain ⟨hmoment, htoken, -⟩ := a.work_never h
      exact (ih (a.work run).1 hmoment).trans htoken

namespace Member

variable {member start : Member} {index : Nat} {token : Token}

/-! ## One member -/

/-- A step leaves the end of a member as it was. -/
theorem outcome_advance (member : Member) : member.advance.outcome = member.outcome := by
  rcases member with ⟨steps, run⟩
  cases steps with
  | done _ => rfl
  | look _ => rfl
  | check passed stopped =>
      unfold outcome advance
      simp only [Steps.perform]
      rcases Work.abortPoint run with ⟨_ | _, left⟩ <;> rfl
  | act _ _ => rfl

theorem result?_eq_some {result : Except TransformError Unit} :
    member.result? = some result ↔ member.steps = .done result := by
  rcases member with ⟨steps, run⟩
  cases steps <;> simp [result?]

theorem outcome_of_done {result : Except TransformError Unit}
    (h : member.steps = .done result) : member.outcome = (result, member.run) := by
  unfold outcome
  rw [h]
  rfl

/-- A step of a run that nobody times leaves the token alone. -/
theorem advance_quiet (member : Member) (h : member.run.moment = .never) :
    member.advance.run.moment = .never ∧ member.advance.run.token = member.run.token := by
  rcases member with ⟨steps, run⟩
  replace h : run.moment = .never := h
  cases steps with
  | done _ => exact ⟨h, rfl⟩
  | look _ => exact ⟨h, rfl⟩
  | check passed stopped =>
      unfold advance
      simp only
      rw [Work.abortPoint_never h]
      rcases run.token.cancelled with _ | _ <;> exact ⟨h, rfl⟩
  | act a _ =>
      obtain ⟨hmoment, htoken, -⟩ := a.work_never h
      exact ⟨hmoment, htoken⟩

theorem move_quiet (h : member.run.moment = .never) (move : Move) :
    (member.move index move).run.moment = .never := by
  cases move with
  | cancel => exact h
  | advance other =>
      simp only [Member.move]
      split
      · exact (advance_quiet member h).1
      · exact h

end Member

namespace Team

variable {team : Team}

theorem move_of_none {index : Nat} (h : team.members[index]? = none) :
    team.move (.advance index) = team := by
  simp only [Team.move]
  rw [h]

theorem move_of_some {index : Nat} {member : Member} (h : team.members[index]? = some member) :
    team.move (.advance index) =
      { token := (member.under team.token).advance.run.token
        members := team.members.set index (member.under team.token).advance } := by
  simp only [Team.move]
  rw [h]

/-- Nobody else times the runs of the team. -/
def Quiet (team : Team) : Prop := ∀ member ∈ team.members, member.run.moment = .never

theorem Quiet.move (h : team.Quiet) (move : Move) : (team.move move).Quiet := by
  cases move with
  | cancel => exact h
  | advance other =>
      rcases hother : team.members[other]? with _ | member
      · rw [move_of_none hother]
        exact h
      · have hmember := h member (List.mem_of_getElem? hother)
        rw [move_of_some hother]
        intro found hfound
        rcases List.mem_or_eq_of_mem_set hfound with hold | rfl
        · exact h found hold
        · exact ((member.under team.token).advance_quiet hmember).1

/-- A move changes one member as if the others were not there. -/
theorem member?_move (h : team.Quiet) (move : Move) (index : Nat) :
    (team.move move).member? index =
      (team.member? index).map fun member => member.move index move := by
  cases move with
  | cancel =>
      unfold member?
      rw [Option.map_map]
      rfl
  | advance other =>
      by_cases heq : other = index
      · subst heq
        simp only [Member.move, if_true]
        rcases hother : team.members[other]? with _ | member
        · rw [move_of_none hother]
          unfold member?
          rw [hother]
          rfl
        · have hlt : other < team.members.length := (List.getElem?_eq_some_iff.mp hother).1
          rw [move_of_some hother]
          unfold member?
          rw [hother, List.getElem?_set_self hlt]
          rfl
      · simp only [Member.move, if_neg heq]
        rw [Option.map_id']
        rcases hother : team.members[other]? with _ | member
        · rw [move_of_none hother]
        · -- The step of another member leaves the token alone.
          have hmember := h member (List.mem_of_getElem? hother)
          have htoken : ((member.under team.token).advance).run.token = team.token :=
            ((member.under team.token).advance_quiet hmember).2
          rw [move_of_some hother, htoken]
          unfold member?
          rw [List.getElem?_set_ne heq]

/-- What a schedule does to one member. -/
theorem member?_play (h : team.Quiet) (moves : List Move) (index : Nat) :
    (team.play moves).member? index =
      (team.member? index).map fun member => moves.foldl (Member.move index) member := by
  induction moves generalizing team with
  | nil => exact Option.map_id'.symm
  | cons move rest ih =>
      show ((team.move move).play rest).member? index = _
      rw [ih (h.move move), member?_move h, Option.map_map]
      rfl

end Team

end Decompiled
