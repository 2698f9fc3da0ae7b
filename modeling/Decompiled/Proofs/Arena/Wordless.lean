import Decompiled.SyntaxTree
import Decompiled.Proofs.Arena.Views

/-!
# Arenas without their text

Three kinds of node carry text that stands in the source: identifiers,
references to types, and nodes of no particular kind. A wordless arena has that
text left out and is the same in all else. How a tree hangs together, and what
the resolver found out about it, can be asked of the wordless arena as well.

* `Arena.wordless`: the arena without the text.
* `Arena.members_wordless`, `Arena.descendantsOfKind_wordless`, and so on: what can
  be asked of it.
* `Edit.remove_wordless`: a removal does not look at the text.
-/

namespace Decompiled

/-- What a node carries, without text that stands in the source. -/
def NodeData.wordless : NodeData → NodeData
  | identifier _ => identifier ""
  | typeReference _ => typeReference ""
  | other _ => other ""
  | data => data

theorem NodeData.kind_wordless (data : NodeData) : data.wordless.kind = data.kind := by
  cases data <;> rfl

theorem NodeData.nameSlot?_wordless (data : NodeData) :
    data.wordless.nameSlot? = data.nameSlot? := by
  cases data <;> rfl

/-- A node without the text that it carries. -/
def Node.wordless (node : Node) : Node := { node with data := node.data.wordless }

@[simp] theorem Node.parent_wordless (node : Node) : node.wordless.parent = node.parent := rfl

/-- An arena without the text that its nodes carry, removed nodes included. -/
def Arena.wordless (a : Arena) : Arena := ⟨a.nodes.map Node.wordless⟩

namespace Arena

variable (a : Arena) (i p : NodeIndex)

@[simp] theorem size_wordless : a.wordless.size = a.size := Array.size_map

theorem get?_wordless : a.wordless.get? i = (a.get? i).map Node.wordless := by
  unfold get? wordless
  split
  · rfl
  · exact Array.getElem?_map

/-! ## What can be asked of it -/

theorem isLive_wordless : a.wordless.isLive i = a.isLive i := by
  unfold isLive
  rw [get?_wordless, Option.any_map]
  rfl

theorem children_wordless : a.wordless.children i = a.children i := by
  unfold children
  rw [get?_wordless]
  rcases a.get? i with _ | node <;> rfl

theorem liveCount_wordless : a.wordless.liveCount = a.liveCount := by
  unfold liveCount wordless
  exact Array.countP_map

section Ask

variable {α : Type} {f : Node → Option α}

/-- Whatever a node answers without its text. -/
theorem get?_bind_wordless (hf : ∀ node, f node.wordless = f node) :
    (a.wordless.get? i).bind f = (a.get? i).bind f := by
  rw [get?_wordless, Option.bind_map]
  exact congrArg (Option.bind (a.get? i)) (funext hf)

end Ask

theorem parent?_wordless : a.wordless.parent? i = a.parent? i :=
  a.get?_bind_wordless i fun _ => rfl

theorem kind?_wordless : a.wordless.kind? i = a.kind? i := by
  unfold kind?
  rw [get?_wordless, Option.map_map]
  exact congrArg (Option.map · (a.get? i)) (funext fun node => node.data.kind_wordless)

theorem attributeTarget?_wordless : a.wordless.attributeTarget? i = a.attributeTarget? i := by
  refine a.get?_bind_wordless i fun node => ?_
  rcases node with ⟨data, _, _, _⟩
  cases data <;> rfl

theorem attributeTypeRef?_wordless :
    a.wordless.attributeTypeRef? i = a.attributeTypeRef? i := by
  refine a.get?_bind_wordless i fun node => ?_
  rcases node with ⟨data, _, _, _⟩
  cases data <;> rfl

theorem argument?_wordless : a.wordless.argument? i = a.argument? i := by
  refine a.get?_bind_wordless i fun node => ?_
  rcases node with ⟨data, _, _, _⟩
  cases data <;> rfl

theorem nextSibling?_wordless : a.wordless.nextSibling? i = a.nextSibling? i := by
  unfold nextSibling?
  rw [parent?_wordless]
  exact congrArg (Option.bind (a.parent? i)) (funext fun q => by rw [children_wordless])

theorem childrenOfKind_wordless (kind : NodeKind) :
    a.wordless.childrenOfKind p kind = a.childrenOfKind p kind := by
  unfold childrenOfKind
  rw [children_wordless]
  simp only [kind?_wordless]

theorem members_wordless : a.wordless.members p = a.members p := by
  unfold members
  rw [get?_wordless]
  rcases a.get? p with _ | node
  · rfl
  · simp only [Option.map_some, kind?_wordless]
    show (node.children.filter fun child =>
      some child != node.data.wordless.nameSlot? && _) = _
    rw [NodeData.nameSlot?_wordless]

theorem nextLive?_wordless (stack : List NodeIndex) :
    a.wordless.nextLive? stack = a.nextLive? stack := by
  induction stack with
  | nil => rfl
  | cons i stack ih =>
      simp only [nextLive?]
      rw [get?_wordless, ih]
      rcases a.get? i with _ | node <;> rfl

theorem walkOnto_wordless (seen : List NodeIndex) (turns : Nat) (stack : List NodeIndex) :
    a.wordless.walkOnto seen turns stack = a.walkOnto seen turns stack := by
  induction turns generalizing seen stack with
  | zero => rfl
  | succ turns ih =>
      simp only [walkOnto]
      rw [nextLive?_wordless]
      rcases a.nextLive? stack with _ | ⟨index, stack'⟩
      · rfl
      · exact ih (index :: seen) stack'

theorem descendantsOfKind_wordless (kind : NodeKind) :
    a.wordless.descendantsOfKind i kind = a.descendantsOfKind i kind := by
  unfold descendantsOfKind descendantsAndSelf
  rw [walkOnto_wordless, size_wordless]
  simp only [kind?_wordless]

/-! ## Changes that do not look at the text -/

theorem modify_wordless {f : Node → Node} (hf : ∀ node, (f node).wordless = f node.wordless) :
    a.wordless.modify i f = (a.modify i f).wordless := by
  unfold modify wordless
  split
  · rfl
  · rw [Arena.mk.injEq]
    apply Array.ext_getElem?
    intro n
    simp only [Array.getElem?_map, Array.getElem?_modify]
    split
    · rcases a.nodes[n]? with _ | node
      · rfl
      · exact congrArg some (hf node).symm
    · rfl

theorem mark_wordless : a.wordless.mark i = (a.mark i).wordless :=
  a.modify_wordless i fun _ => rfl

theorem detach_wordless : a.wordless.detach i p = (a.detach i p).wordless := by
  have hlist : a.wordless.modify p (fun node => { node with children := node.children.erase i }) =
      (a.modify p fun node => { node with children := node.children.erase i }).wordless :=
    a.modify_wordless p fun _ => rfl
  unfold detach
  rw [hlist]
  exact modify_wordless _ i fun _ => rfl

theorem markFrom_wordless (turns : Nat) (stack : List NodeIndex) :
    a.wordless.markFrom turns stack = (a.markFrom turns stack).wordless := by
  induction turns generalizing a stack with
  | zero => rfl
  | succ turns ih =>
      simp only [markFrom]
      rw [nextLive?_wordless]
      rcases a.nextLive? stack with _ | ⟨index, stack'⟩
      · rfl
      · show (a.wordless.mark index).markFrom turns stack' = _
        rw [mark_wordless, ih]

theorem markSubtree_wordless : a.wordless.markSubtree i = (a.markSubtree i).wordless := by
  unfold markSubtree
  rw [size_wordless, markFrom_wordless]

theorem live_wordless : a.wordless.live i = (a.live i).map Node.wordless := by
  unfold live
  rw [get?_wordless]
  rcases a.get? i with _ | node
  · rfl
  · show (if node.removed then _ else _) = Except.map _ (if node.removed then _ else _)
    split <;> rfl

end Arena

/-- A removal does not look at the text. -/
theorem Edit.remove_wordless (i : NodeIndex) (a : Arena) :
    Edit.remove i a.wordless = ((Edit.remove i a).1, (Edit.remove i a).2.wordless) := by
  rw [Edit.remove_apply, Edit.remove_apply, Arena.live_wordless]
  rcases a.live i with error | node
  · rfl
  · simp only [Except.map, Node.parent_wordless, Arena.live_wordless]
    split
    · rfl
    · rcases a.live node.parent with error | parent
      · rfl
      · dsimp only
        show (if i ∈ parent.children then _ else _) = _
        split
        · show (Except.ok (), (a.wordless.detach i node.parent).markSubtree i) = _
          rw [Arena.detach_wordless, Arena.markSubtree_wordless]
        · rfl

end Decompiled
