import Mathlib.Data.List.ReduceOption
import Decompiled.Pass.AssemblyAttributes
import Decompiled.Proofs.Arena.Reachable

/-!
# Attributes as a compiler writes them

Whether an attribute of an assembly goes is decided by its resolved name and its
children. Here this is told as a table of what a compiler writes. Arguments are
picked from among the children, and only the two halves of a permission request
must have no other node between them.

* `AssemblyAttributes.Written`: the table.
* `AssemblyAttributes.isOnly_arguments_iff`: what it is to have one argument.
* `AssemblyAttributes.isSkipVerificationRequest_iff`: what it is to have the two
  halves of a request.
* `AssemblyAttributes.isAssemblyMarker_iff_written`: the rule decides the table.
-/

namespace Decompiled

theorem Argument.isNamedTrue_iff {name : String} {value : Argument} :
    value.isNamedTrue name = true ↔ value = .named name (.literal (.bool true)) := by
  unfold Argument.isNamedTrue
  split
  · simp
  · rename_i hother
    constructor
    · intro habs
      cases habs
    · rintro rfl
      exact absurd rfl (hother _)

namespace AssemblyAttributes

variable {tree : SyntaxTree} {a : Arena} {i c d : NodeIndex} {front back : List NodeIndex}
  {name : String} {test : NodeIndex → Bool} {P : Argument → Bool}

/-! ## The table -/

/-- The argument `target.RequestMinimum`. -/
def requestMinimum (target : String) : Argument :=
  .positional (.memberReference target "RequestMinimum")

/-- The argument `SkipVerification = true`. -/
def skipVerification : Argument := .named "SkipVerification" (.literal (.bool true))

/-- `Written fullName children`: a compiler writes an attribute of this type with
these children, of which some are arguments and the others (`none`) are not. -/
inductive Written : String → List (Option Argument) → Prop
  | debuggable (children : List (Option Argument)) : Written KnownNames.debuggable children
  | targetFramework (children : List (Option Argument)) :
      Written KnownNames.targetFramework children
  /-- The number 8 is the only argument. -/
  | compilationRelaxations {children : List (Option Argument)} :
      children.reduceOption = [.positional (.literal (.int32 8))] →
        Written KnownNames.compilationRelaxations children
  | runtimeCompatibility {children : List (Option Argument)} :
      children.reduceOption = [.named "WrapNonExceptionThrows" (.literal (.bool true))] →
        Written KnownNames.runtimeCompatibility children
  /-- The two arguments stand side by side; other nodes may come before and after. -/
  | securityPermission (target : String) {before after : List (Option Argument)} :
      before.reduceOption = [] → after.reduceOption = [] →
        Written KnownNames.securityPermission
          (before ++ some (requestMinimum target) :: some skipVerification :: after)

/-- The children of a node, each with the argument that it holds if it is one. -/
def written (a : Arena) (i : NodeIndex) : List (Option Argument) :=
  (a.children i).map a.argument?

/-! ## Arguments among nodes -/

/-- The arguments among some nodes, in order. -/
def argumentsAmong (a : Arena) (nodes : List NodeIndex) : List NodeIndex :=
  nodes.filter fun c => a.kind? c == some .argument

theorem argumentsAmong_cons (a : Arena) (c : NodeIndex) (nodes : List NodeIndex) :
    argumentsAmong a (c :: nodes) =
      if (a.argument? c).isSome then c :: argumentsAmong a nodes else argumentsAmong a nodes := by
  unfold argumentsAmong
  rw [List.filter_cons]
  simp only [beq_iff_eq, Arena.isSome_argument?_iff]

/-- They hold what the nodes have of arguments. -/
theorem map_argument?_argumentsAmong (a : Arena) (nodes : List NodeIndex) :
    (argumentsAmong a nodes).map a.argument? =
      (nodes.map a.argument?).reduceOption.map some := by
  induction nodes with
  | nil => rfl
  | cons c rest ih =>
      rw [argumentsAmong_cons, List.map_cons]
      rcases hvalue : a.argument? c with _ | value
      · rw [List.reduceOption_cons_of_none, ← ih]
        rfl
      · rw [List.reduceOption_cons_of_some, List.map_cons, ← ih, ← hvalue]
        simp [hvalue]

theorem argumentsAmong_eq_nil_iff (a : Arena) (nodes : List NodeIndex) :
    argumentsAmong a nodes = [] ↔ (nodes.map a.argument?).reduceOption = [] := by
  rw [← List.map_eq_nil_iff (f := a.argument?), map_argument?_argumentsAmong,
    List.map_eq_nil_iff]

/-- There is one argument, and a test of what it holds succeeds. -/
theorem isOnly_arguments_iff (htest : ∀ c, test c = (a.argument? c).any P) :
    isOnly test (a.arguments i) = true ↔
      ∃ value, (written a i).reduceOption = [value] ∧ P value = true := by
  have hvalues : (a.arguments i).map a.argument? = (written a i).reduceOption.map some :=
    map_argument?_argumentsAmong a (a.children i)
  rcases harguments : a.arguments i with _ | ⟨only, _ | ⟨second, rest⟩⟩
  · rw [harguments, List.map_nil] at hvalues
    rw [List.map_eq_nil_iff.mp hvalues.symm]
    simp [isOnly]
  · rw [harguments, List.map_cons, List.map_nil] at hvalues
    obtain ⟨value, hlist, hvalue⟩ := List.map_eq_singleton_iff.mp hvalues.symm
    rw [hlist]
    simp [isOnly, htest, ← hvalue]
  · have hlength := congrArg List.length hvalues
    rw [harguments, List.length_map, List.length_map] at hlength
    constructor
    · intro habs
      cases habs
    · rintro ⟨value, hlist, -⟩
      rw [hlist] at hlength
      simp at hlength

/-! ## Tests of one argument -/

theorem isRequestMinimum_iff :
    isRequestMinimum a c = true ↔ ∃ target, a.argument? c = some (requestMinimum target) := by
  unfold isRequestMinimum requestMinimum
  rcases a.argument? c with _ | (_ | _ | _) | _ <;> simp

theorem isNamedTrue_iff :
    isNamedTrue a name c = true ↔ a.argument? c = some (.named name (.literal (.bool true))) := by
  unfold isNamedTrue
  rw [Option.any_eq_true]
  simp [Argument.isNamedTrue_iff]

/-! ## The two halves of a request -/

/-- Where two arguments stand side by side, they are the only ones exactly if
nothing before and after them is one. -/
theorem argumentsAmong_pair (hc : (a.argument? c).isSome) (hd : (a.argument? d).isSome) :
    argumentsAmong a (front ++ c :: d :: back) =
      argumentsAmong a front ++ c :: d :: argumentsAmong a back := by
  have happend : ∀ xs ys,
      argumentsAmong a (xs ++ ys) = argumentsAmong a xs ++ argumentsAmong a ys :=
    fun xs ys => List.filter_append xs ys
  rw [happend, argumentsAmong_cons, if_pos hc, argumentsAmong_cons, if_pos hd]

/-- The arguments are the two halves of a request exactly if the halves stand side
by side and nothing else among the children is an argument. -/
theorem isSkipVerificationRequest_iff (hlinks : a.WellLinked) :
    isSkipVerificationRequest a (a.arguments i) = true ↔
      ∃ target before after, before.reduceOption = [] ∧ after.reduceOption = [] ∧
        written a i =
          before ++ some (requestMinimum target) :: some skipVerification :: after := by
  have hamong : a.arguments i = argumentsAmong a (a.children i) := rfl
  constructor
  · intro h
    rcases harguments : a.arguments i with _ | ⟨c, _ | ⟨second, _ | ⟨third, rest⟩⟩⟩
    · rw [harguments] at h
      cases h
    · rw [harguments] at h
      cases h
    · rw [harguments, isSkipVerificationRequest, Bool.and_eq_true, isRequestMinimum_iff] at h
      obtain ⟨⟨target, hc⟩, hnext⟩ := h
      have hmem : c ∈ a.children i := by
        have hfirst : c ∈ a.arguments i := by simp [harguments]
        exact (List.mem_filter.mp hfirst).1
      obtain ⟨front, back, hlist⟩ := List.append_of_mem hmem
      rw [hlinks.nextSibling?_eq_head? hlist] at hnext
      rcases back with _ | ⟨d, back⟩
      · cases hnext
      -- The node after the first half is an argument, so it is the second one.
      have hd : a.argument? d = some skipVerification := isNamedTrue_iff.mp hnext
      rw [hamong, hlist, argumentsAmong_pair (by simp [hc]) (by simp [hd])] at harguments
      have hlength := congrArg List.length harguments
      simp only [List.length_append, List.length_cons, List.length_nil] at hlength
      have hfront : argumentsAmong a front = [] := List.length_eq_zero_iff.mp (by omega)
      have hback : argumentsAmong a back = [] := List.length_eq_zero_iff.mp (by omega)
      refine ⟨target, front.map a.argument?, back.map a.argument?,
        (argumentsAmong_eq_nil_iff a front).mp hfront,
        (argumentsAmong_eq_nil_iff a back).mp hback, ?_⟩
      unfold written
      rw [hlist, List.map_append, List.map_cons, List.map_cons, hc, hd]
    · rw [harguments] at h
      cases h
  · rintro ⟨target, before, after, hbefore, hafter, hwritten⟩
    obtain ⟨front, others, hlist, rfl, hothers⟩ := List.map_eq_append_iff.mp hwritten
    obtain ⟨c, others', rfl, hc, hothers'⟩ := List.map_eq_cons_iff.mp hothers
    obtain ⟨d, back, rfl, hd, rfl⟩ := List.map_eq_cons_iff.mp hothers'
    have harguments : a.arguments i = [c, d] := by
      rw [hamong, hlist, argumentsAmong_pair (by simp [hc]) (by simp [hd]),
        (argumentsAmong_eq_nil_iff a front).mpr hbefore,
        (argumentsAmong_eq_nil_iff a back).mpr hafter]
      rfl
    rw [harguments, isSkipVerificationRequest, Bool.and_eq_true, isRequestMinimum_iff,
      hlinks.nextSibling?_eq_head? hlist]
    exact ⟨⟨target, hc⟩, isNamedTrue_iff.mpr hd⟩

/-! ## The rule for an assembly -/

/-- An attribute has a resolved name if it names a type reference and a name is
recorded for that. -/
theorem attributeFullName?_iff {tree : SyntaxTree} {fullName : String} :
    tree.attributeFullName? i = some fullName ↔
      ∃ typeRef, (tree.arena.data? i = some (.attributeUse typeRef) ∧ typeRef ≠ .none) ∧
        tree.annotations.typeOf? typeRef = some fullName := by
  unfold SyntaxTree.attributeFullName?
  rw [Option.bind_eq_some_iff]
  simp only [Arena.attributeTypeRef?_iff]

/-- The number 8 is the only argument. -/
theorem isOnly_eight_iff :
    isOnly (fun c => a.argument? c == some (.positional (.literal (.int32 8)))) (a.arguments i) =
        true ↔
      (written a i).reduceOption = [.positional (.literal (.int32 8))] := by
  have htest : ∀ c, (a.argument? c == some (.positional (.literal (.int32 8)))) =
      (a.argument? c).any (· == .positional (.literal (.int32 8))) := by
    intro c
    rcases a.argument? c with _ | value <;> rfl
  refine (isOnly_arguments_iff htest).trans ?_
  simp

/-- An argument `name = true` is the only one. -/
theorem isOnly_isNamedTrue_iff :
    isOnly (isNamedTrue a name) (a.arguments i) = true ↔
      (written a i).reduceOption = [.named name (.literal (.bool true))] := by
  refine (isOnly_arguments_iff (P := Argument.isNamedTrue name) fun c => rfl).trans ?_
  simp [Argument.isNamedTrue_iff]

/-- For an attribute of a known type the rule asks what the table asks. -/
theorem isAssemblyMarker_of_name (hlinks : tree.arena.WellLinked) {fullName : String}
    (hname : tree.attributeFullName? i = some fullName) :
    isAssemblyMarker tree i = true ↔ Written fullName (written tree.arena i) := by
  unfold isAssemblyMarker
  rw [hname]
  constructor
  · intro h
    simp only at h
    split_ifs at h with hdebug hframework hrelax hcompat hsecurity
    · exact hdebug ▸ .debuggable _
    · exact hframework ▸ .targetFramework _
    · exact hrelax ▸ .compilationRelaxations (isOnly_eight_iff.mp h)
    · exact hcompat ▸ .runtimeCompatibility (isOnly_isNamedTrue_iff.mp h)
    · obtain ⟨target, before, after, hbefore, hafter, hwritten⟩ :=
        (isSkipVerificationRequest_iff hlinks).mp h
      rw [hwritten]
      exact hsecurity ▸ .securityPermission target hbefore hafter
  · intro h
    generalize hwritten : written tree.arena i = children at h
    cases h with
    | debuggable _ => rfl
    | targetFramework _ => rfl
    | compilationRelaxations honly =>
        rw [← hwritten] at honly
        exact isOnly_eight_iff.mpr honly
    | runtimeCompatibility honly =>
        rw [← hwritten] at honly
        exact isOnly_isNamedTrue_iff.mpr honly
    | securityPermission target hbefore hafter =>
        exact (isSkipVerificationRequest_iff hlinks).mpr
          ⟨target, _, _, hbefore, hafter, hwritten⟩

/-- In a tree that can be built the rule for an assembly holds exactly of the
attributes that a compiler writes. Such an attribute names a type reference with a
recorded full name, and by this name the table allows its children. -/
theorem isAssemblyMarker_iff_written (tree : SyntaxTree) (hreachable : tree.arena.Reachable)
    (hfits : tree.arena.Fits) (i : NodeIndex) :
    isAssemblyMarker tree i = true ↔
      ∃ typeRef fullName, tree.arena.data? i = some (.attributeUse typeRef) ∧
        typeRef ≠ .none ∧ tree.annotations.typeOf? typeRef = some fullName ∧
        Written fullName (written tree.arena i) := by
  have hlinks := hreachable.wellLinked hfits
  constructor
  · intro h
    rcases hname : tree.attributeFullName? i with _ | fullName
    · unfold isAssemblyMarker at h
      rw [hname] at h
      cases h
    · obtain ⟨typeRef, ⟨hdata, hsome⟩, hrecorded⟩ := attributeFullName?_iff.mp hname
      exact ⟨typeRef, fullName, hdata, hsome, hrecorded,
        (isAssemblyMarker_of_name hlinks hname).mp h⟩
  · rintro ⟨typeRef, fullName, hdata, hsome, hrecorded, hwritten⟩
    have hname := attributeFullName?_iff.mpr ⟨typeRef, ⟨hdata, hsome⟩, hrecorded⟩
    exact (isAssemblyMarker_of_name hlinks hname).mpr hwritten

/-- Two requests for permission, of which the second has a node between its
halves. -/
def requestedUnit : SyntaxTree where
  arena := Arena.build
    [.addRoot .compilationUnit, .addAttributeSection ⟨0⟩ .assembly,
      .addAttribute ⟨1⟩ "SecurityPermission",
      .addArgument ⟨2⟩ (requestMinimum "SecurityAction"), .addArgument ⟨2⟩ skipVerification,
      .addOther ⟨2⟩ "comment", .addAttribute ⟨1⟩ "SecurityPermission",
      .addArgument ⟨7⟩ (requestMinimum "SecurityAction"), .addOther ⟨7⟩ "comment",
      .addArgument ⟨7⟩ skipVerification]
  root := ⟨0⟩
  annotations :=
    ⟨[(⟨3⟩, KnownNames.securityPermission), (⟨8⟩, KnownNames.securityPermission)], []⟩

/-- A compiler writes the first one and not the second. -/
theorem written_requestedUnit :
    isAssemblyMarker requestedUnit ⟨2⟩ = true ∧
      ¬ Written KnownNames.securityPermission (written requestedUnit.arena ⟨7⟩) := by
  have hreachable : requestedUnit.arena.Reachable := Arena.reachable_build _
  have hrule := isAssemblyMarker_iff_written requestedUnit hreachable (by decide)
  constructor
  · refine (hrule ⟨2⟩).mpr ⟨⟨3⟩, KnownNames.securityPermission, by decide, by decide, rfl, ?_⟩
    have hchildren : written requestedUnit.arena ⟨2⟩ =
        [none] ++ some (requestMinimum "SecurityAction") :: some skipVerification :: [none] := by
      decide
    rw [hchildren]
    exact .securityPermission "SecurityAction" rfl rfl
  · intro habs
    have hmarker := (hrule ⟨7⟩).mpr
      ⟨⟨8⟩, KnownNames.securityPermission, by decide, by decide, rfl, habs⟩
    exact absurd hmarker (by decide)

end AssemblyAttributes

end Decompiled
