import Mathlib.Logic.Relation
import Decompiled.Proofs.Pass.Visit
import Decompiled.Proofs.Run.Untimed

/-!
# Where a run stops

A pass visits the nodes that it has listed one after the other, and a cancelled
run ends at an abort point, which stands before a visit or before a pass.
Whoever cancels it and when, it leaves its tree after whole visits: those of its
first passes to all that they have listed, and those of the next pass to the
first nodes on its list.

* `Tour`: the visits of a pass to nodes in order.
* `Journey`: the tours of passes. `Midway`: a tree on the way.
* `midway_runPasses`: a run leaves a tree on the way, and the last one unless it
  has been cancelled.
-/

namespace Decompiled

open Work Attempt

variable {tree mid tree' tree'' : SyntaxTree} {pass : StandardPass} {i : NodeIndex}
  {nodes xs ys : List NodeIndex} {passes : List StandardPass} {run : Run} {α : Type}

/-- Visits do not look at the token. -/
theorem StandardPass.ignores_visit (pass : StandardPass) (i : NodeIndex) :
    (pass.sweep.visit i).Ignores Run.untimed := by
  cases pass with
  | escapeIdentifiers => exact EscapeIdentifiers.ignores_visit i
  | assemblyAttributes => exact removals_untimed.section_visit i
  | embeddedTypes => exact removals_untimed.helper_visit i

/-! ## Tours -/

/-- Some visits of passes lead from the one tree to the other. -/
def Visits : SyntaxTree → SyntaxTree → Prop :=
  Relation.ReflTransGen fun tree tree' => ∃ pass i, Visit tree pass i tree'

/-- A pass visits nodes in order, each with success. -/
inductive Tour (pass : StandardPass) : List NodeIndex → SyntaxTree → SyntaxTree → Prop
  | done {tree : SyntaxTree} : Tour pass [] tree tree
  | visit {i : NodeIndex} {rest : List NodeIndex} {tree tree' tree'' : SyntaxTree} :
      (pass.sweep.visit i).Turns tree tree' → Visit tree pass i tree' →
      Tour pass rest tree' tree'' → Tour pass (i :: rest) tree tree''

namespace Tour

/-- What can be visited at first can be visited in order. -/
theorem exists_of_pending (hrooted : tree.Rooted) (hnodup : nodes.Nodup)
    (hpending : ∀ i ∈ nodes, pass.Pending tree i) : ∃ tree', Tour pass nodes tree tree' := by
  induction nodes generalizing tree with
  | nil => exact ⟨tree, .done⟩
  | cons i rest ih =>
      obtain ⟨hi, hrest⟩ := List.nodup_cons.mp hnodup
      obtain ⟨visited, hturns, hvisit⟩ :=
        pass.exists_visit hrooted (hpending i List.mem_cons_self)
      have hnext : ∀ j ∈ rest, pass.Pending visited j := by
        intro j hj
        have hne : j ≠ i := ne_of_mem_of_not_mem hj hi
        exact hvisit.pending hrooted hne (hpending j (List.mem_cons_of_mem i hj))
      obtain ⟨tree', htour⟩ := ih (hvisit.rooted hrooted) hrest hnext
      exact ⟨tree', .visit hturns hvisit htour⟩

theorem visits (h : Tour pass nodes tree tree') : Visits tree tree' := by
  induction h with
  | done => exact .refl
  | visit _ hvisit _ ih => exact .head ⟨_, _, hvisit⟩ ih

theorem turns_visitAll (h : Tour pass nodes tree tree') (changes : Nat) :
    (pass.sweep.visitAll changes nodes).Turns tree tree' := by
  induction h generalizing changes with
  | done => exact .pure changes
  | visit hturns _ _ ih =>
      exact .bind .abortPoint fun _ => .bind hturns fun more => ih (changes + more)

end Tour

namespace Visits

variable (h : Visits tree tree')

include h

/-- Visits change the arena alone. -/
theorem eq_arena : tree' = { tree with arena := tree'.arena } := by
  induction h with
  | refl => rfl
  | tail _ hvisit ih =>
      obtain ⟨pass, i, hvisit⟩ := hvisit
      rw [hvisit.eq_arena, ih]

variable (hrooted : tree.Rooted)

include hrooted

theorem rooted : tree'.Rooted := by
  induction h with
  | refl => exact hrooted
  | tail _ hvisit ih =>
      obtain ⟨pass, i, hvisit⟩ := hvisit
      exact hvisit.rooted ih

/-- They thin it. -/
theorem thins : tree.arena.Thins tree'.arena := by
  induction h with
  | refl => exact .refl hrooted.links
  | tail hvisits hvisit ih =>
      obtain ⟨pass, i, hvisit⟩ := hvisit
      exact ih.trans (hvisit.thins (rooted hvisits hrooted))

/-- What a pass lists afterwards is what it would have listed before and is
left. -/
theorem nodes_eq (pass : StandardPass) :
    pass.sweep.nodes tree' = (pass.sweep.nodes tree).filter tree'.arena.isLive := by
  have hroot := (rooted h hrooted).root_live
  rw [eq_arena h] at hroot ⊢
  exact pass.nodes_eq hrooted.links (thins h hrooted) hroot

end Visits

namespace StandardPass

/-- What is done after the last visit leaves the tree alone. -/
theorem finish_apply (pass : StandardPass) (count : Nat) (run : Run) :
    (pass.sweep.finish count run).1 = .ok () ∧
      (pass.sweep.finish count run).2.tree = run.tree := by
  cases pass <;> exact ⟨rfl, rfl⟩

theorem turns_finish (pass : StandardPass) (count : Nat) (tree : SyntaxTree) :
    (pass.sweep.finish count).Turns tree tree := by
  cases pass with
  | escapeIdentifiers => exact .record (.escapedIdentifiers count)
  | assemblyAttributes => exact .pure ()
  | embeddedTypes => exact .pure ()

/-- A rooted tree has a tour of all that a pass lists. -/
theorem exists_tour (pass : StandardPass) (hrooted : tree.Rooted) :
    ∃ tree', Tour pass (pass.sweep.nodes tree) tree tree' :=
  Tour.exists_of_pending hrooted (pass.nodes_nodup hrooted.links) fun _ hi => .inl hi

end StandardPass

/-- A pass that visits its nodes in two parts does what the parts do. -/
theorem StandardPass.turns_perform (hnodes : pass.sweep.nodes tree = xs ++ ys)
    (hxs : (pass.sweep.visitAll 0 xs).Turns tree mid)
    (hys : ∀ changes, (pass.sweep.visitAll changes ys).Turns mid tree') :
    pass.pass.perform.Turns tree tree' := by
  refine Pass.turns_perform ?_
  rw [pass.run_eq]
  apply Turns.look_bind
  rw [hnodes, Sweep.visitAll_append]
  exact .bind (.bind hxs hys) fun count => pass.turns_finish count tree'

/-- An undisturbed pass makes its tour. -/
theorem Tour.turns_perform (h : Tour pass (pass.sweep.nodes tree) tree tree') :
    pass.pass.perform.Turns tree tree' :=
  StandardPass.turns_perform (List.append_nil _).symm (h.turns_visitAll 0)
    fun changes => .pure changes

/-! ## Journeys -/

/-- Passes make their tours one after the other. -/
inductive Journey : List StandardPass → SyntaxTree → SyntaxTree → Prop
  | done {tree : SyntaxTree} : Journey [] tree tree
  | pass {pass : StandardPass} {rest : List StandardPass} {tree tree' tree'' : SyntaxTree} :
      Tour pass (pass.sweep.nodes tree) tree tree' → Journey rest tree' tree'' →
      Journey (pass :: rest) tree tree''

/-- `mid` is on the way from `tree` to the tree at the end of the journey. -/
inductive Midway : List StandardPass → SyntaxTree → SyntaxTree → SyntaxTree → Prop
  | within {pass : StandardPass} {passes : List StandardPass} {done rest : List NodeIndex}
      {tree mid tree' tree'' : SyntaxTree} :
      pass.sweep.nodes tree = done ++ rest → Tour pass done tree mid →
      Tour pass rest mid tree' → Journey passes tree' tree'' →
      Midway (pass :: passes) tree mid tree''
  | later {pass : StandardPass} {passes : List StandardPass}
      {tree tree' mid tree'' : SyntaxTree} :
      Tour pass (pass.sweep.nodes tree) tree tree' → Midway passes tree' mid tree'' →
      Midway (pass :: passes) tree mid tree''
  | arrived {tree : SyntaxTree} : Midway [] tree tree tree

theorem exists_journey (hrooted : tree.Rooted) (passes : List StandardPass) :
    ∃ tree', Journey passes tree tree' := by
  induction passes generalizing tree with
  | nil => exact ⟨tree, .done⟩
  | cons pass rest ih =>
      obtain ⟨toured, htour⟩ := pass.exists_tour hrooted
      obtain ⟨tree', hrest⟩ := ih (htour.visits.rooted hrooted)
      exact ⟨tree', .pass htour hrest⟩

/-- An undisturbed run makes the whole journey. -/
theorem Journey.turns (h : Journey passes tree tree') :
    (Pass.performAll (passes.map StandardPass.pass)).Turns tree tree' := by
  induction h with
  | done => exact .pure ()
  | pass htour _ ih => exact .bind htour.turns_perform fun _ => ih

theorem Journey.visits (h : Journey passes tree tree') : Visits tree tree' := by
  induction h with
  | done => exact .refl
  | pass htour _ ih => exact htour.visits.trans ih

/-- Visits lead to a tree on the way. -/
theorem Midway.visits (h : Midway passes tree mid tree') : Visits tree mid := by
  induction h with
  | within _ hdone _ _ => exact hdone.visits
  | later htour _ ih => exact htour.visits.trans ih
  | arrived => exact .refl

/-! ## Where a run stops -/

/-- How the visits to nodes end in any run: after some of them because the run
has been cancelled, or after all of them. -/
def Stops (pass : StandardPass) (nodes : List NodeIndex) (tree tree' : SyntaxTree)
    (ended : Except TransformError α × Run) : Prop :=
  ∃ done rest, nodes = done ++ rest ∧ Tour pass done tree ended.2.tree ∧
    Tour pass rest ended.2.tree tree' ∧
    (ended.1 = .error .cancelled ∨ (∃ value, ended.1 = .ok value) ∧ rest = [])

theorem Tour.stops (h : Tour pass nodes tree tree') (changes : Nat) (htree : run.tree = tree) :
    Stops pass nodes tree tree' (pass.sweep.visitAll changes nodes run) := by
  induction h generalizing changes run with
  | done =>
      subst htree
      exact ⟨[], [], rfl, .done, .done, .inr ⟨⟨changes, rfl⟩, rfl⟩⟩
  | @visit i rest tree visited tree'' hturns hvisit htour ih =>
      obtain ⟨hkept, hcancelled | hpassed⟩ := abortPoint_cases run
      · -- The run ends before this visit.
        have hends : pass.sweep.visitAll changes (i :: rest) run =
            (.error .cancelled, (abortPoint run).2) :=
          bind_of_error (Prod.ext hcancelled rfl)
        rw [hends]
        refine ⟨[], i :: rest, rfl, ?_, ?_, .inl rfl⟩
        · rw [hkept, htree]
          exact .done
        · rw [hkept, htree]
          exact .visit hturns hvisit htour
      · obtain ⟨more, hmore, hleft⟩ :=
          hturns.in_any (pass.ignores_visit i) (hkept.trans htree)
        have hgoes : pass.sweep.visitAll changes (i :: rest) run =
            pass.sweep.visitAll (changes + more) rest
              (pass.sweep.visit i (abortPoint run).2).2 :=
          (bind_of_ok (Prod.ext hpassed rfl)).trans (bind_of_ok (Prod.ext hmore rfl))
        rw [hgoes]
        obtain ⟨done, left, heq, hdone, hrest, hends⟩ := ih (changes + more) hleft
        exact ⟨i :: done, left, by rw [heq]; rfl, .visit hturns hvisit hdone, hrest, hends⟩

theorem Tour.stops_run (h : Tour pass (pass.sweep.nodes tree) tree tree')
    (htree : run.tree = tree) :
    Stops pass (pass.sweep.nodes tree) tree tree' (pass.sweep.run run) := by
  have hrun : pass.sweep.run run =
      (pass.sweep.visitAll 0 (pass.sweep.nodes tree) >>= pass.sweep.finish) run := by
    rw [← htree]
    rfl
  rw [hrun, bind_apply]
  obtain ⟨done, rest, heq, hdone, hrest, hends⟩ := h.stops 0 htree
  rcases hran : pass.sweep.visitAll 0 (pass.sweep.nodes tree) run with ⟨error | count, left⟩
  · rw [hran] at hdone hrest hends
    rcases hends with hcancelled | ⟨⟨value, habs⟩, -⟩
    · exact ⟨done, rest, heq, hdone, hrest, .inl (congrArg Except.error
        (Except.error.inj hcancelled))⟩
    · cases habs
  · rw [hran] at hdone hrest hends
    obtain ⟨hok, hkept⟩ := pass.finish_apply count left
    simp only
    rw [← hkept] at hdone hrest
    rcases hends with habs | ⟨-, hnil⟩
    · cases habs
    · exact ⟨done, rest, heq, hdone, hrest, .inr ⟨⟨(), hok⟩, hnil⟩⟩

/-- A pass of a pipeline stops where its visits stop. -/
theorem Tour.stops_perform (h : Tour pass (pass.sweep.nodes tree) tree tree')
    (htree : run.tree = tree) :
    Stops pass (pass.sweep.nodes tree) tree tree' (pass.pass.perform run) := by
  rw [Pass.perform_apply, pass.run_eq]
  obtain ⟨hkept, hends⟩ := abortPoint_cases run
  rcases hpoint : abortPoint run with ⟨error | ⟨⟩, opened⟩
  · rw [hpoint] at hkept hends
    replace hkept : opened.tree = tree := hkept.trans htree
    rcases hends with hcancelled | habs
    · refine ⟨[], _, rfl, ?_, ?_, .inl hcancelled⟩
      · rw [← hkept]
        exact .done
      · rw [← hkept] at h ⊢
        exact h
    · cases habs
  · rw [hpoint] at hkept
    -- The pass itself runs in the span that has just been opened.
    have hinside : ({ opened with
        started := opened.started + 1,
        spans := opened.spans ++ [.transform pass.pass.name] } : Run).tree = tree :=
      hkept.trans htree
    have hstops := h.stops_run hinside
    simp only
    rcases hran : pass.sweep.run { opened with
        started := opened.started + 1,
        spans := opened.spans ++ [.transform pass.pass.name] } with ⟨error | ⟨⟩, ended⟩
    · rw [hran] at hstops
      exact hstops
    · rw [hran] at hstops
      exact hstops

/-- A run of passes, cancelled or not, leaves a tree on the way, and the last
one if it succeeds. It does not fail for any other reason. -/
theorem Journey.midway (h : Journey passes tree tree') (htree : run.tree = tree) :
    let ended := Pass.performAll (passes.map StandardPass.pass) run
    Midway passes tree ended.2.tree tree' ∧
      (ended.1 = .error .cancelled ∨ ended.1 = .ok () ∧ ended.2.tree = tree') := by
  induction h generalizing run with
  | done =>
      subst htree
      exact ⟨.arrived, .inr ⟨rfl, rfl⟩⟩
  | @pass pass rest tree toured tree'' htour hrest ih =>
      obtain ⟨done, left, heq, hdone, hleft, hends⟩ := htour.stops_perform htree
      rcases hran : pass.pass.perform run with ⟨error | ⟨⟩, ended⟩
      · have hstop : Pass.performAll ((pass :: rest).map StandardPass.pass) run =
            (.error error, ended) := bind_of_error hran
        rw [hran] at hdone hleft hends
        simp only
        rw [hstop]
        rcases hends with hcancelled | ⟨⟨value, habs⟩, -⟩
        · exact ⟨.within heq hdone hleft hrest, .inl (congrArg Except.error
            (Except.error.inj hcancelled))⟩
        · cases habs
      · have hgo : Pass.performAll ((pass :: rest).map StandardPass.pass) run =
            Pass.performAll (rest.map StandardPass.pass) ended := bind_of_ok hran
        rw [hran] at hdone hleft hends
        simp only
        rw [hgo]
        rcases hends with habs | ⟨-, rfl⟩
        · cases habs
        · -- All visits have been made, so the next pass starts where the tour ends.
          cases hleft
          obtain ⟨hmidway, hlast⟩ := ih (rfl : ended.tree = ended.tree)
          exact ⟨.later htour hmidway, hlast⟩

/-- A run over a rooted tree is cancelled on the way or comes to the end. -/
theorem midway_runPasses (hrooted : tree.Rooted) (passes : List StandardPass) (token : Token)
    (moment : Moment) :
    let ended := runPasses passes tree token moment
    ∃ tree', Journey passes tree tree' ∧ Midway passes tree ended.2.tree tree' ∧
      (ended.1 = .error .cancelled ∨ ended.1 = .ok () ∧ ended.2.tree = tree') := by
  obtain ⟨tree', hjourney⟩ := exists_journey hrooted passes
  refine ⟨tree', hjourney, ?_⟩
  unfold runPasses Pipeline.run
  rw [Pipeline.passes_ofList]
  exact hjourney.midway rfl

end Decompiled
