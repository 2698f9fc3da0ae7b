import Decompiled.Proofs.Arena.Wordless
import Decompiled.Proofs.Run.Edits

/-!
# Questions that do not look at text

The visits of the passes that remove nodes ask questions of the tree that can
be asked of the wordless tree as well, write notices and remove nodes. What all
these steps have in common, sequences of them inherit, and so the visits.

* `Textless`: the questions that do not look at the text.
* `Work.InheritedByRemovals`: a property that such questions, notices and removals
  have.
* `Work.InheritedByRemovals.section_visit`, `Work.InheritedByRemovals.helper_visit`:
  the visits have it too.
-/

namespace Decompiled

open Work Attempt

/-- A tree without the text that its nodes carry. -/
def SyntaxTree.wordless (tree : SyntaxTree) : SyntaxTree :=
  { tree with arena := tree.arena.wordless }

/-- A question with the same answer for the wordless tree. -/
def Textless {α : Type} (question : SyntaxTree → α) : Prop :=
  ∀ tree, question tree.wordless = question tree

/-! ## The questions -/

theorem SyntaxTree.textless_attributeFullName? (i : NodeIndex) :
    Textless fun tree => tree.attributeFullName? i := by
  intro tree
  show (tree.arena.wordless.attributeTypeRef? i).bind _ = _
  rw [Arena.attributeTypeRef?_wordless]
  rfl

namespace AssemblyAttributes

theorem isNamedTrue_wordless (a : Arena) : isNamedTrue a.wordless = isNamedTrue a := by
  funext name i
  unfold isNamedTrue
  rw [Arena.argument?_wordless]

theorem isSkipVerificationRequest_wordless (a : Arena) (arguments : List NodeIndex) :
    isSkipVerificationRequest a.wordless arguments = isSkipVerificationRequest a arguments := by
  unfold isSkipVerificationRequest isRequestMinimum
  simp only [Arena.argument?_wordless, Arena.nextSibling?_wordless, isNamedTrue_wordless]

/-- Each rule goes by resolved names and by values of arguments. -/
theorem textless_rule {target : AttributeTarget} {rule : SyntaxTree → NodeIndex → Bool}
    (hrule : rule? target = some rule) (i : NodeIndex) : Textless fun tree => rule tree i := by
  intro tree
  have hname := SyntaxTree.textless_attributeFullName? i tree
  cases target with
  | assembly =>
      cases hrule
      have harguments : tree.wordless.arena.arguments i = tree.arena.arguments i :=
        tree.arena.childrenOfKind_wordless i .argument
      have hargument : tree.wordless.arena.argument? = tree.arena.argument? :=
        funext tree.arena.argument?_wordless
      have hnamed : isNamedTrue tree.wordless.arena = isNamedTrue tree.arena :=
        isNamedTrue_wordless tree.arena
      have hrequest : isSkipVerificationRequest tree.wordless.arena =
          isSkipVerificationRequest tree.arena :=
        funext (isSkipVerificationRequest_wordless tree.arena)
      unfold isAssemblyMarker
      simp only at hname
      simp only [hname, harguments, hargument, hnamed, hrequest]
  | wholeModule =>
      cases hrule
      unfold isModuleMarker
      simp only at hname
      simp only [hname]
  | other keyword => cases hrule

theorem textless_attributes (s : NodeIndex) : Textless fun tree => tree.arena.attributes s :=
  fun tree => tree.arena.childrenOfKind_wordless s .attributeUse

theorem textless_nodes : Textless sweep.nodes :=
  fun tree => tree.arena.childrenOfKind_wordless tree.root .attributeSection

end AssemblyAttributes

namespace EmbeddedTypes

theorem textless_isLive_helper (i : NodeIndex) :
    Textless fun tree => tree.arena.isLive i && isHelper tree i := by
  intro tree
  show (tree.arena.wordless.isLive i && _) = _
  rw [Arena.isLive_wordless]
  rfl

theorem textless_isSingleMemberNamespace (p : NodeIndex) :
    Textless fun tree => isSingleMemberNamespace tree.arena p := by
  intro tree
  show isSingleMemberNamespace tree.arena.wordless p = _
  unfold isSingleMemberNamespace
  rw [Arena.kind?_wordless, Arena.members_wordless]

theorem textless_nodes : Textless sweep.nodes :=
  fun tree => tree.arena.descendantsOfKind_wordless tree.root .typeDeclaration

end EmbeddedTypes

/-! ## The visits -/

namespace Work

/-- Textless questions, notices, removals and failures have the property, and so
have sequences of what has it. -/
structure InheritedByRemovals (P : {α : Type} → Work α → Prop) : Prop
    extends Composable P where
  look : ∀ {α : Type} {question : SyntaxTree → α}, Textless question → P (Work.look question)
  record : ∀ notice, P (Work.record notice)
  remove : ∀ i, P (Work.edit (Edit.remove i))
  fail : ∀ error, P (Attempt.fail (.tree error) : Work Unit)

namespace InheritedByRemovals

variable {P : {α : Type} → Work α → Prop} (h : InheritedByRemovals P)

include h

theorem removeMatching {target : AttributeTarget} {rule : SyntaxTree → NodeIndex → Bool}
    (hrule : AssemblyAttributes.rule? target = some rule) (indices : List NodeIndex) :
    P (AssemblyAttributes.removeMatching rule indices) := by
  induction indices with
  | nil => exact h.pure ()
  | cons i rest ih =>
      refine h.bind (h.look (AssemblyAttributes.textless_rule hrule i)) fun holds => ?_
      cases holds with
      | false => exact ih
      | true =>
          refine h.bind (h.look (SyntaxTree.textless_attributeFullName? i)) fun fullName => ?_
          exact h.bind (h.record _) fun _ => h.bind (h.remove i) fun _ => ih

theorem removeIfEmpty (s : NodeIndex) : P (AssemblyAttributes.removeIfEmpty s) := by
  refine h.bind (h.look (AssemblyAttributes.textless_attributes s)) fun attributes => ?_
  cases attributes with
  | nil => exact h.bind (h.record _) fun _ => h.remove s
  | cons first rest => exact h.pure ()

/-- A section is cleaned by such steps, -/
theorem section_visit (s : NodeIndex) : P (AssemblyAttributes.visit s) := by
  refine h.bind (h.look fun tree => tree.arena.attributeTarget?_wordless s) fun target? => ?_
  rcases hrule : target?.bind AssemblyAttributes.rule? with _ | rule
  · exact h.pure 0
  · obtain ⟨target, -, htarget⟩ := Option.bind_eq_some_iff.mp hrule
    refine h.bind (h.look (AssemblyAttributes.textless_attributes s)) fun attributes => ?_
    refine h.bind (h.removeMatching htarget attributes) fun _ => ?_
    exact h.bind (h.removeIfEmpty s) fun _ => h.pure 0

/-- and a helper type is removed by such steps. -/
theorem helper_visit (i : NodeIndex) : P (EmbeddedTypes.visit i) := by
  refine h.bind (h.look (EmbeddedTypes.textless_isLive_helper i)) fun holds => ?_
  cases holds with
  | false => exact h.pure 0
  | true =>
      refine h.bind ?_ fun _ => h.pure 0
      refine h.bind (h.look fun tree => tree.arena.parent?_wordless i) fun parent? => ?_
      cases parent? with
      | none => exact h.fail _
      | some p =>
          refine h.bind (h.look (EmbeddedTypes.textless_isSingleMemberNamespace p))
            fun collapse => ?_
          exact h.bind (h.record _) fun _ => h.remove _

end InheritedByRemovals

end Work

end Decompiled
