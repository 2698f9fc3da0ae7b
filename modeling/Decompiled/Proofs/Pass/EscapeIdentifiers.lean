import Mathlib.Data.List.Nodup
import Decompiled.Proofs.Arena.Thinning
import Decompiled.Proofs.Identifier.Escaped
import Decompiled.Proofs.Run.Yields

/-!
# What escaping identifiers does

An undisturbed sweep over the identifiers of a tree succeeds. Each live
identifier below the root carries its escaped name afterwards, and nothing else
of the arena changes. What is written are the names that changed.

* `NodeData.escaped`: what a node carries with its name escaped.
* `Arena.Escapes`: two arenas that differ in nothing but escaped names.
* `EscapeIdentifiers.renaming?`: what is told of a node.
* `EscapeIdentifiers.yields_sweep`: what the whole sweep does and tells.
-/

namespace Decompiled

open Work

/-- What a node carries, with the name of an identifier escaped. -/
def NodeData.escaped : NodeData → NodeData
  | identifier name => identifier (Identifier.escape name)
  | data => data

theorem NodeData.escaped_escaped (data : NodeData) : data.escaped.escaped = data.escaped := by
  cases data with
  | identifier name => exact congrArg NodeData.identifier (Identifier.escape_escape name)
  | _ => rfl

theorem NodeData.escaped_of_kind {data : NodeData} (h : data.kind ≠ .identifier) :
    data.escaped = data := by
  cases data with
  | identifier name => exact absurd rfl h
  | _ => rfl

theorem NodeData.map_escaped_escaped (data? : Option NodeData) :
    (data?.map escaped).map escaped = data?.map escaped := by
  rw [Option.map_map]
  exact congrArg (Option.map · data?) (funext escaped_escaped)

theorem NodeData.anonymous_escaped (data : NodeData) :
    data.escaped.anonymous = data.anonymous := by
  cases data <;> rfl

namespace Arena

variable {a b : Arena} {i x : NodeIndex} {name : String} {listed : List NodeIndex}

/-- The arena after an identifier has been looked at. -/
def escapeAt (a : Arena) (i : NodeIndex) : Arena :=
  match (a.identifierName? i).bind Identifier.escape? with
  | none => a
  | some after => a.rename i after

/-- An arena that is the same apart from the names of the listed identifiers,
which are escaped. -/
structure Escapes (a : Arena) (listed : List NodeIndex) (b : Arena) : Prop where
  size : b.size = a.size
  live : ∀ x, b.isLive x = a.isLive x
  parent : ∀ x, b.parent? x = a.parent? x
  lists : ∀ x, b.children x = a.children x
  carries : ∀ x, b.data? x =
    if x ∈ listed then (a.data? x).map NodeData.escaped else a.data? x

/-- Looking at a live node escapes what it carries. -/
theorem data?_escapeAt_self (hlive : a.isLive i = true) :
    (a.escapeAt i).data? i = (a.data? i).map NodeData.escaped := by
  unfold escapeAt
  rcases hname : a.identifierName? i with _ | name
  · rw [Option.bind_none]
    rcases hdata : a.data? i with _ | data
    · rfl
    · -- A node of another kind carries no name.
      have hkind : data.kind ≠ .identifier := by
        intro habs
        cases data with
        | identifier name =>
            rw [identifierName?_eq_some_iff.mpr hdata] at hname
            cases hname
        | _ => cases habs
      rw [Option.map_some, NodeData.escaped_of_kind hkind]
  · have hdata := identifierName?_eq_some_iff.mp hname
    rw [Option.bind_some, hdata, Option.map_some]
    rcases hafter : Identifier.escape? name with _ | after
    · -- A valid name is left alone, and is its own escaped form.
      have hsame := Identifier.escape_of_isValid (Identifier.escape?_eq_none_iff.mp hafter)
      show a.data? i = some (.identifier (Identifier.escape name))
      rw [hsame, hdata]
    · have hkind : a.kind? i = some .identifier := by
        rw [kind?_eq, hdata]
        rfl
      show (a.rename i after).data? i = some (.identifier (Identifier.escape name))
      rw [data?_rename_self a i after hlive hkind, Identifier.escape_of_escape? hafter]

theorem data?_escapeAt_of_ne (hne : x ≠ i) : (a.escapeAt i).data? x = a.data? x := by
  unfold escapeAt
  split
  · rfl
  · exact data?_rename_of_ne a i x _ hne

theorem Escapes.refl (a : Arena) : Escapes a [] a :=
  ⟨rfl, fun _ => rfl, fun _ => rfl, fun _ => rfl, fun _ => rfl⟩

theorem Escapes.escapeAt (h : Escapes a listed b) (hlive : b.isLive i = true) :
    Escapes a (listed ++ [i]) (b.escapeAt i) := by
  have hdata : ∀ x, (b.escapeAt i).data? x =
      if x ∈ listed ++ [i] then (a.data? x).map NodeData.escaped else a.data? x := by
    intro x
    simp only [List.mem_append, List.mem_singleton]
    by_cases hx : x = i
    · subst hx
      rw [if_pos (Or.inr rfl), data?_escapeAt_self hlive, h.carries]
      split
      · exact NodeData.map_escaped_escaped _
      · rfl
    · rw [data?_escapeAt_of_ne hx, h.carries]
      simp only [hx, or_false]
  unfold Arena.escapeAt at hdata ⊢
  split at hdata
  · exact ⟨h.size, h.live, h.parent, h.lists, hdata⟩
  · refine ⟨(size_rename _ _ _).trans h.size, fun x => ?_, fun x => ?_, fun x => ?_, hdata⟩
    · rw [isLive_rename, h.live]
    · rw [parent?_rename, h.parent]
    · rw [children_rename, h.lists]

/-- Names are all that can be told apart afterwards. -/
theorem Escapes.thins (h : Escapes a listed b) (hlinks : a.WellLinked) : a.Thins b where
  size := h.size
  links := hlinks.of_views h.live h.parent h.lists
  live := fun {x} hx => (h.live x).symm.trans hx
  carries := by
    intro x
    rw [h.carries]
    split
    · rw [Option.map_map]
      exact congrArg (Option.map · (a.data? x)) (funext NodeData.anonymous_escaped)
    · rfl
  hangs := fun {x} _ => h.parent x
  hung := fun {x _} hp => (h.parent x).symm.trans hp
  lists := by
    intro x hx
    rw [h.live] at hx
    rw [h.lists]
    refine (List.filter_eq_self.mpr fun c hc => ?_).symm
    rw [h.live]
    exact hlinks.child_live hx hc

/-- All that is live below a node has its name escaped, if it has one. -/
theorem Escapes.data?_of_within {top : NodeIndex}
    (h : Escapes a (a.descendantsOfKind top .identifier) b) (hlinks : a.WellLinked)
    (hlive : a.isLive x = true) (hw : a.Within top x) :
    b.data? x = (a.data? x).map NodeData.escaped := by
  rw [h.carries]
  split
  · rfl
  · rename_i hmem
    rw [mem_descendantsOfKind hlinks, ← hw.isLive_eq hlinks, kind?_eq] at hmem
    rcases hdata : a.data? x with _ | data
    · rfl
    · have hkind : data.kind ≠ .identifier := by
        intro hkind
        rw [hdata] at hmem
        exact hmem ⟨hlive, hw, congrArg some hkind⟩
      rw [Option.map_some, NodeData.escaped_of_kind hkind]

/-- Nothing else changes. -/
theorem Escapes.data?_of_not_within {top : NodeIndex}
    (h : Escapes a (a.descendantsOfKind top .identifier) b) (hlinks : a.WellLinked)
    (hw : ¬ a.Within top x) : b.data? x = a.data? x := by
  rw [h.carries, if_neg]
  rw [mem_descendantsOfKind hlinks]
  exact fun hmem => hw hmem.2.1

end Arena

namespace EscapeIdentifiers

variable {tree : SyntaxTree} {a b : Arena} {i : NodeIndex}

/-- What is told of a node: the old and the new name of an identifier whose
escaped name is another one. -/
def renaming? (a : Arena) (i : NodeIndex) : Option Notice :=
  match a.identifierName? i with
  | none => none
  | some name =>
      if Identifier.escape name = name then none
      else some (.escapeIdentifier i name (Identifier.escape name))

/-- Nothing is told of nodes of other kinds. -/
theorem renaming?_of_kind (hkind : a.kind? i ≠ some .identifier) : renaming? a i = none := by
  unfold renaming?
  rcases hname : a.identifierName? i with _ | name
  · rfl
  · rw [Arena.kind?_eq, Arena.identifierName?_eq_some_iff.mp hname] at hkind
    exact absurd rfl hkind

theorem renaming?_congr (h : b.data? i = a.data? i) : renaming? b i = renaming? a i := by
  unfold renaming?
  rw [Arena.identifierName?_congr h]

/-- A live identifier is looked at and gets its escaped name, which is told if it
is another one. -/
theorem yields_visit {spans : List Span} (hlive : tree.arena.isLive i = true) :
    (visit i).Yields tree spans (renaming? tree.arena i).toList.length
      { tree with arena := tree.arena.escapeAt i }
      ((renaming? tree.arena i).toList.map (⟨·, spans⟩)) := by
  unfold visit Arena.escapeAt renaming?
  apply Yields.look_bind
  rcases hname : tree.arena.identifierName? i with _ | name
  · exact .pure 0
  · simp only [Option.bind_some]
    rcases hafter : Identifier.escape? name with _ | after
    · rw [if_pos (Identifier.escape_eq_self_iff.mpr (Identifier.escape?_eq_none_iff.mp hafter))]
      exact .pure 0
    · have hchanged : Identifier.escape name ≠ name := by
        rw [Ne, Identifier.escape_eq_self_iff, ← Identifier.escape?_eq_none_iff, hafter]
        exact Option.some_ne_none after
      have hkind : tree.arena.kind? i = some .identifier := by
        rw [Arena.kind?_eq, Arena.identifierName?_eq_some_iff.mp hname]
        rfl
      obtain ⟨node, hnode⟩ := Arena.liveOfKind_of_isLive hlive hkind
      have hrename : Edit.setIdentifierName i after tree.arena =
          (.ok (), tree.arena.rename i after) := by
        unfold Arena.rename
        rw [Arena.setIdentifierName_apply, hnode]
      rw [if_neg hchanged, Identifier.escape_of_escape? hafter]
      exact .bind (.record _) (.quiet_bind (.edit hrename) (.pure 1))

theorem turns_visit (hlive : tree.arena.isLive i = true) :
    (visit i).Turns tree { tree with arena := tree.arena.escapeAt i } :=
  Yields.turns fun _ => yields_visit hlive

/-- The next node of the sweep has not been visited before, so what is told of it
is its old name. -/
theorem yields_next {done rest : List NodeIndex} (hlinks : tree.arena.WellLinked)
    (hlist : sweep.nodes tree = done ++ i :: rest) (hb : tree.arena.Escapes done b) :
    (∀ spans, (visit i).Yields { tree with arena := b } spans
      (renaming? tree.arena i).toList.length { tree with arena := b.escapeAt i }
      ((renaming? tree.arena i).toList.map (⟨·, spans⟩))) ∧
      tree.arena.Escapes (done ++ [i]) (b.escapeAt i) := by
  have hmem : i ∈ sweep.nodes tree := by
    rw [hlist]
    exact List.mem_append_cons_self
  obtain ⟨hroot, hwithin, -⟩ := (Arena.mem_descendantsOfKind hlinks).mp hmem
  have hlive : b.isLive i = true := by rw [hb.live, hwithin.isLive_eq hlinks, hroot]
  have hnew : i ∉ done := by
    have hnodup : (sweep.nodes tree).Nodup :=
      (Arena.nodup_descendantsAndSelf hlinks tree.root).filter _
    rw [hlist] at hnodup
    exact fun hdone => List.disjoint_of_nodup_append hnodup hdone List.mem_cons_self
  have hdata := hb.carries i
  rw [if_neg hnew] at hdata
  rw [← renaming?_congr hdata]
  exact ⟨fun _ => yields_visit hlive, hb.escapeAt hlive⟩

/-- The sweep escapes the names of the live identifiers below the root, and
does nothing else. It tells which names changed, and how many they are. -/
theorem yields_sweep (hlinks : tree.arena.WellLinked) :
    let nodes := tree.arena.descendantsOfKind tree.root .identifier
    let told := nodes.filterMap (renaming? tree.arena)
    ∃ b, tree.arena.Escapes nodes b ∧
      ∀ spans, pass.run.Yields tree spans () { tree with arena := b }
        ((told ++ [Notice.escapedIdentifiers told.length]).map (⟨·, spans⟩)) := by
  intro nodes told
  have hvisit : ∀ done i rest, nodes = done ++ i :: rest → ∀ t,
      (∃ b, t = { tree with arena := b } ∧ tree.arena.Escapes done b) →
        ∃ t', (∀ spans, (sweep.visit i).Yields t spans (renaming? tree.arena i).toList.length t'
            ((renaming? tree.arena i).toList.map (⟨·, spans⟩))) ∧
          ∃ b, t' = { tree with arena := b } ∧ tree.arena.Escapes (done ++ [i]) b := by
    rintro done i rest hlist t ⟨b, rfl, hb⟩
    obtain ⟨hyields, hnext⟩ := yields_next hlinks hlist hb
    exact ⟨_, hyields, _, rfl, hnext⟩
  obtain ⟨t, hall, b, rfl, hb⟩ := Sweep.yields_visitAll hvisit ⟨_, rfl, .refl tree.arena⟩
  have htold : told = nodes.flatMap fun i => (renaming? tree.arena i).toList :=
    List.filterMap_eq_flatMap_toList _ _
  refine ⟨b, hb, fun spans => ?_⟩
  have hcount := hall 0 spans
  rw [Nat.zero_add] at hcount
  apply Yields.look_bind
  rw [htold, List.map_append]
  exact .bind hcount (.record _)

/-- What it does in short, whatever it tells. -/
theorem turns_sweep (hlinks : tree.arena.WellLinked) :
    ∃ b, pass.run.Turns tree { tree with arena := b } ∧
      tree.arena.Escapes (tree.arena.descendantsOfKind tree.root .identifier) b := by
  obtain ⟨b, hb, hyields⟩ := yields_sweep hlinks
  exact ⟨b, Yields.turns hyields, hb⟩

end EscapeIdentifiers

end Decompiled
