import Decompiled.Arena.Walk
import Decompiled.Proofs.Arena.Order

/-!
# What a walk lists

`Arena.walkOnto` counts its turns. `Arena.Walk` is the same walk as a relation
between a stack and the nodes listed from it, without a count, so that facts
about walks are proved by induction on the walk itself.

* `Arena.walk_descendantsAndSelf`: in a well-linked arena the turns suffice.
* `Arena.mem_descendantsAndSelf`: the live nodes of the subtree are listed.
* `Arena.nodup_descendantsAndSelf`: none of them twice.
* `Arena.pairwise_descendantsAndSelf`: they are listed in the order of the tree.
-/

namespace Decompiled

namespace Arena

variable {a b : Arena} {i x y : NodeIndex} {stack listed done rest : List NodeIndex}

/-- `Walk a stack listed`: the nodes listed by a walk from a stack. -/
inductive Walk (a : Arena) : List NodeIndex → List NodeIndex → Prop
  | done : Walk a [] []
  /-- Indices of no node and of removed nodes are dropped. -/
  | skip {i : NodeIndex} {stack listed : List NodeIndex} :
      a.isLive i = false → Walk a stack listed → Walk a (i :: stack) listed
  /-- A live node is listed, and its children come next. -/
  | visit {i : NodeIndex} {stack listed : List NodeIndex} :
      a.isLive i = true → Walk a (a.children i ++ stack) listed →
        Walk a (i :: stack) (i :: listed)

theorem nextLive?_cons (a : Arena) (i : NodeIndex) (stack : List NodeIndex) :
    a.nextLive? (i :: stack) =
      if a.isLive i then some (i, a.children i ++ stack) else a.nextLive? stack := by
  rcases h : a.get? i with _ | node
  · simp [nextLive?, isLive, h]
  · by_cases hremoved : node.removed <;> simp [nextLive?, isLive, children, h, hremoved]

namespace Walk

/-- Walks from two stacks, one after the other. -/
theorem append {stack' listed' : List NodeIndex} (h : a.Walk stack listed)
    (h' : a.Walk stack' listed') : a.Walk (stack ++ stack') (listed ++ listed') := by
  induction h with
  | done => exact h'
  | skip hdead _ ih => exact .skip hdead ih
  | visit hlive _ ih =>
      rw [List.append_assoc] at ih
      exact .visit hlive ih

/-- What is listed is live. -/
theorem isLive_of_mem (h : a.Walk stack listed) (hx : x ∈ listed) : a.isLive x = true := by
  induction h with
  | done => cases hx
  | skip _ _ ih => exact ih hx
  | visit hlive _ ih =>
      rcases List.mem_cons.mp hx with rfl | hx
      · exact hlive
      · exact ih hx

/-- A walk that can be made from each entry of a stack can be made from the
stack. -/
theorem exists_of_each {stack : List NodeIndex} (h : ∀ i ∈ stack, ∃ listed, a.Walk [i] listed) :
    ∃ listed, a.Walk stack listed := by
  induction stack with
  | nil => exact ⟨[], .done⟩
  | cons i rest ih =>
      obtain ⟨first, hfirst⟩ := h i List.mem_cons_self
      obtain ⟨others, hothers⟩ := ih fun j hj => h j (List.mem_cons_of_mem _ hj)
      exact ⟨first ++ others, hfirst.append hothers⟩

/-- Walks come to an end, since the slots of children are made later than those
of their parents and there is a last slot. -/
theorem exists_of_wellLinked (hlinks : a.WellLinked) (i : NodeIndex) :
    ∃ listed, a.Walk [i] listed := by
  -- The induction is on how many slots there are from that of the node on.
  have key : ∀ n, ∀ i : NodeIndex, a.size - i.toNat ≤ n → ∃ listed, a.Walk [i] listed := by
    intro n
    induction n with
    | zero =>
        intro i hi
        refine ⟨[], .skip ?_ .done⟩
        rcases hlive : a.isLive i with _ | _
        · rfl
        · obtain ⟨node, hget, -⟩ := isLive_iff.mp hlive
          have := (bounds_of_get? hget).2
          omega
    | succ n ih =>
        intro i hi
        rcases hlive : a.isLive i with _ | _
        · exact ⟨[], .skip hlive .done⟩
        · have heach : ∀ c ∈ a.children i, ∃ listed, a.Walk [c] listed := by
            intro c hc
            have hlt := hlinks.younger hc
            have := (isSome_get?_iff.mp (hlinks.child_there hc)).2
            exact ih c (by omega)
          obtain ⟨below, hbelow⟩ := exists_of_each heach
          exact ⟨i :: below, .visit hlive (by rw [List.append_nil]; exact hbelow)⟩
  exact key _ i (Nat.le_refl _)

/-- The live nodes of the subtrees of a stack are listed. -/
theorem mem_iff (h : a.Walk stack listed) (hlinks : a.WellLinked) :
    x ∈ listed ↔ ∃ i ∈ stack, a.isLive i = true ∧ a.Within i x := by
  induction h with
  | done => simp
  | skip hdead _ ih =>
      rw [ih]
      constructor
      · rintro ⟨j, hj, hrest⟩
        exact ⟨j, List.mem_cons_of_mem _ hj, hrest⟩
      · rintro ⟨j, hj, hlive, hw⟩
        rcases List.mem_cons.mp hj with rfl | hj
        · rw [hdead] at hlive
          cases hlive
        · exact ⟨j, hj, hlive, hw⟩
  | @visit top stack listed hlive _ ih =>
      -- Below the top there is the top itself and what is below its children.
      rw [List.mem_cons, ih]
      constructor
      · rintro (rfl | ⟨j, hj, hjlive, hw⟩)
        · exact ⟨x, List.mem_cons_self, hlive, .self⟩
        · rcases List.mem_append.mp hj with hj | hj
          · have hstep : a.Within top j := .child .self (hlinks.listed_iff.mp hj)
            exact ⟨top, List.mem_cons_self, hlive, hstep.trans hw⟩
          · exact ⟨j, List.mem_cons_of_mem _ hj, hjlive, hw⟩
      · rintro ⟨j, hj, hjlive, hw⟩
        rcases List.mem_cons.mp hj with rfl | hj
        · by_cases hx : x = j
          · exact .inl hx
          · obtain ⟨c, hc, hcx⟩ := hw.exists_child hx
            have hmem := hlinks.listed_iff.mpr hc
            exact .inr ⟨c, List.mem_append_left _ hmem, hlinks.child_live hlive hmem, hcx⟩
        · exact .inr ⟨j, List.mem_append_right _ hj, hjlive, hw⟩

/-- From a stack in order each node is listed before those below it and those to
the right of it. -/
theorem pairwise_before (h : a.Walk stack listed) (hlinks : a.WellLinked)
    (hstack : stack.Pairwise a.LeftOf) : listed.Pairwise a.Before := by
  induction h with
  | done => exact List.Pairwise.nil
  | skip _ _ ih => exact ih (List.pairwise_cons.mp hstack).2
  | @visit top stack listed _ hwalk ih =>
      obtain ⟨htop, hrest⟩ := List.pairwise_cons.mp hstack
      have hbelow : ∀ {c}, c ∈ a.children top → a.Within top c :=
        fun hc => .child .self (hlinks.listed_iff.mp hc)
      refine List.pairwise_cons.mpr ⟨fun y hy => ?_, ih ?_⟩
      · obtain ⟨j, hj, -, hw⟩ := (hwalk.mem_iff hlinks).mp hy
        rcases List.mem_append.mp hj with hj | hj
        · refine .inl ⟨?_, (hbelow hj).trans hw⟩
          rintro rfl
          exact hlinks.not_within_parent (hlinks.listed_iff.mp hj) hw
        · exact .inr ((htop j hj).below .self hw)
      · refine List.pairwise_append.mpr ⟨hlinks.pairwise_children top, hrest, fun c hc j hj => ?_⟩
        exact (htop j hj).below (hbelow hc) .self

/-- No node is listed twice. -/
theorem nodup (h : a.Walk [i] listed) (hlinks : a.WellLinked) : listed.Nodup :=
  (h.pairwise_before hlinks (List.pairwise_singleton _ _)).imp fun hlt => hlt.ne hlinks

/-- A walk only looks at which nodes are live and at the children of those it
lists. -/
theorem transfer (h : a.Walk stack listed)
    (hlive : ∀ x, b.isLive x = true → a.isLive x = true)
    (hlisted : ∀ x ∈ listed, b.isLive x = true ∧ b.children x = a.children x) :
    b.Walk stack listed := by
  induction h with
  | done => exact .done
  | @skip top stack listed hdead _ ih =>
      refine .skip ?_ (ih hlisted)
      rcases hb : b.isLive top with _ | _
      · rfl
      · rw [hlive top hb] at hdead
        cases hdead
  | @visit top stack listed _ _ ih =>
      obtain ⟨htop, hchildren⟩ := hlisted top List.mem_cons_self
      refine .visit htop ?_
      rw [hchildren]
      exact ih fun x hx => hlisted x (List.mem_cons_of_mem _ hx)

/-- With a turn for each node to list, the counted walk lists the same. -/
theorem walkOnto_eq (h : a.Walk stack listed) {turns : Nat} (hturns : listed.length ≤ turns) :
    a.walkOnto [] turns stack = listed := by
  induction h generalizing turns with
  | done =>
      rcases turns with _ | turns
      · rfl
      · rw [walkOnto_succ]
        rfl
  | @skip top stack listed hdead _ ih =>
      rw [← ih hturns]
      rcases turns with _ | turns
      · rfl
      · rw [walkOnto_succ, walkOnto_succ, nextLive?_cons, hdead]
        rfl
  | @visit top stack listed hlive _ ih =>
      rcases turns with _ | turns
      · simp at hturns
      · rw [walkOnto_succ, nextLive?_cons, hlive]
        show top :: a.walkOnto [] turns (a.children top ++ stack) = top :: listed
        rw [ih (by simpa using hturns)]

end Walk

/-- A list of different nodes of an arena is no longer than the arena. -/
theorem length_le_size {l : List NodeIndex} (hnodup : l.Nodup)
    (hthere : ∀ x ∈ l, a.isLive x = true) : l.length ≤ a.size := by
  -- Different indices name different positions, and all of these are there.
  have hmap : (l.map NodeIndex.toNat).Nodup :=
    List.pairwise_map.mpr (hnodup.imp fun hne heq => hne (NodeIndex.toNat_inj.mp heq))
  have hsub : l.map NodeIndex.toNat ⊆ List.range a.size := by
    intro n hn
    obtain ⟨x, hx, rfl⟩ := List.mem_map.mp hn
    obtain ⟨node, hget, -⟩ := isLive_iff.mp (hthere x hx)
    exact List.mem_range.mpr (bounds_of_get? hget).2
  have hlen := hmap.length_le_of_subset hsub
  rwa [List.length_map, List.length_range] at hlen

/-- A walk from one node lists different nodes, and all of them are live. -/
theorem Walk.length_le (h : a.Walk [i] listed) (hlinks : a.WellLinked) :
    listed.length ≤ a.size :=
  length_le_size (h.nodup hlinks) fun _ => h.isLive_of_mem

/-- The turns that a walk is given suffice for it. -/
theorem walk_descendantsAndSelf (hlinks : a.WellLinked) (i : NodeIndex) :
    a.Walk [i] (a.descendantsAndSelf i) := by
  obtain ⟨listed, hwalk⟩ := Walk.exists_of_wellLinked hlinks i
  have heq : a.descendantsAndSelf i = listed := hwalk.walkOnto_eq (hwalk.length_le hlinks)
  rw [heq]
  exact hwalk

/-- The walk below a node lists the live nodes of its subtree. -/
theorem mem_descendantsAndSelf (hlinks : a.WellLinked) :
    x ∈ a.descendantsAndSelf i ↔ a.isLive i = true ∧ a.Within i x := by
  rw [(walk_descendantsAndSelf hlinks i).mem_iff hlinks]
  simp

theorem nodup_descendantsAndSelf (hlinks : a.WellLinked) (i : NodeIndex) :
    (a.descendantsAndSelf i).Nodup :=
  (walk_descendantsAndSelf hlinks i).nodup hlinks

/-- The walk below a node keeps to the order of the tree. -/
theorem pairwise_descendantsAndSelf (hlinks : a.WellLinked) (i : NodeIndex) :
    (a.descendantsAndSelf i).Pairwise a.Before :=
  (walk_descendantsAndSelf hlinks i).pairwise_before hlinks (List.pairwise_singleton _ _)

/-- Of the nodes that a walk lists, those of a kind. -/
theorem mem_descendantsOfKind_iff {kind : NodeKind} : x ∈ a.descendantsOfKind i kind ↔
    x ∈ a.descendantsAndSelf i ∧ a.kind? x = some kind := by
  unfold descendantsOfKind
  rw [List.mem_filter, beq_iff_eq]

theorem mem_descendantsOfKind (hlinks : a.WellLinked) {kind : NodeKind} :
    x ∈ a.descendantsOfKind i kind ↔
      a.isLive i = true ∧ a.Within i x ∧ a.kind? x = some kind := by
  rw [mem_descendantsOfKind_iff, mem_descendantsAndSelf hlinks, and_assoc]

/-- A list of a walk is in the order of the tree. -/
theorem before_of_mem (hlinks : a.WellLinked) {kind : NodeKind}
    (hlist : a.descendantsOfKind i kind = done ++ x :: rest) (hy : y ∈ done) :
    a.Before y x := by
  have hpairwise : (a.descendantsOfKind i kind).Pairwise a.Before :=
    (pairwise_descendantsAndSelf hlinks i).sublist List.filter_sublist
  rw [hlist] at hpairwise
  exact (List.pairwise_append.mp hpairwise).2.2 y hy x List.mem_cons_self

end Arena

end Decompiled
