import Mathlib.Data.List.Infix
import Decompiled.Proofs.Identifier.Spelling

/-!
# Reading escaped names back

A group in an escaped name is read as the unit that it writes and any other
character as itself. That gives the name back unless it looked escaped before: a
group in the name itself would be read as well, and the underscore in front of a
digit is not taken away again. So names that do not look escaped never share an
escaped form.

* `Identifier.unescape?`: the reader.
* `Identifier.Plain`: the names that do not look escaped.
* `Identifier.readUnits_escapeChars`: what is read are the units of the name.
* `Identifier.plain_names_read_back`: plain names are told by their escaped form.
-/

namespace Decompiled.Identifier

variable {c w x y z : Char} {s : String} {unit : Nat} {name rest tail : List Char}

/-- The UTF-16 units that an escaped name stands for. -/
def readUnits : List Char → List Nat
  | [] => []
  | '_' :: w :: x :: y :: z :: rest =>
      match unitOf? w x y z with
      | some unit => unit :: readUnits rest
      | none => units16 '_' ++ readUnits (w :: x :: y :: z :: rest)
  | c :: rest => units16 c ++ readUnits rest

/-- The name that an escaped name stands for, if its units stand for characters. -/
def unescape? (escaped : String) : Option String :=
  (ofUnits16 (readUnits escaped.toList)).map String.ofList

/-- Whether an underscore and four upper-case hexadecimal digits come first. -/
def StartsWithGroup (name : List Char) : Prop :=
  ∃ w x y z rest, name = '_' :: w :: x :: y :: z :: rest ∧
    HexDigit w ∧ HexDigit x ∧ HexDigit y ∧ HexDigit z

/-- No underscore of the name is followed by four upper-case hexadecimal digits. -/
def Groupless (name : List Char) : Prop := ∀ tail, tail <:+ name → ¬ StartsWithGroup tail

/-- A name that does not look escaped. -/
structure Plain (name : List Char) : Prop where
  start : ¬ StartsWithDigit name
  groupless : Groupless name

theorem Groupless.of_cons (h : Groupless (c :: rest)) : Groupless rest :=
  fun tail hsuffix => h tail (hsuffix.trans (List.suffix_cons c rest))

theorem startsWithGroup_cons : StartsWithGroup (c :: w :: x :: y :: z :: rest) ↔
    c = '_' ∧ HexDigit w ∧ HexDigit x ∧ HexDigit y ∧ HexDigit z := by
  constructor
  · rintro ⟨_, _, _, _, _, heq, hdigits⟩
    cases heq
    exact ⟨rfl, hdigits⟩
  · rintro ⟨rfl, hdigits⟩
    exact ⟨w, x, y, z, rest, rfl, hdigits⟩

theorem not_startsWithGroup (h : name.length < 5) : ¬ StartsWithGroup name := by
  rintro ⟨w, x, y, z, rest, rfl, -⟩
  simp only [List.length_cons] at h
  omega

instance (name : List Char) : Decidable (StartsWithGroup name) :=
  match name with
  | _ :: _ :: _ :: _ :: _ :: _ => decidable_of_iff _ startsWithGroup_cons.symm
  | [] | [_] | [_, _] | [_, _, _] | [_, _, _, _] => .isFalse (not_startsWithGroup (by simp))

instance (name : List Char) : Decidable (Groupless name) :=
  decidable_of_iff (∀ tail ∈ name.tails, ¬ StartsWithGroup tail)
    (by unfold Groupless; simp only [List.mem_tails])

instance (name : List Char) : Decidable (Plain name) :=
  decidable_of_iff (¬ StartsWithDigit name ∧ Groupless name)
    ⟨fun ⟨hstart, hgroupless⟩ => ⟨hstart, hgroupless⟩, fun h => ⟨h.start, h.groupless⟩⟩

/-! ## Reading groups and characters -/

theorem readUnits_group (h : unitOf? w x y z = some unit) :
    readUnits ('_' :: w :: x :: y :: z :: rest) = unit :: readUnits rest := by
  rw [readUnits, h]

/-- A character that starts no group is read as itself. -/
theorem readUnits_literal
    (h : ∀ w x y z tail, c = '_' → rest = w :: x :: y :: z :: tail → unitOf? w x y z = none) :
    readUnits (c :: rest) = units16 c ++ readUnits rest := by
  conv_lhs => unfold readUnits
  split
  · rename_i heq
    cases heq
  · rename_i w x y z tail heq
    cases heq
    rw [h w x y z tail rfl rfl]
  · rename_i heq
    cases heq
    rfl

/-- Groups are read as the units that they stand for. -/
theorem readUnits_escapeUnits {units : List Nat} (h : ∀ unit ∈ units, unit < 0x10000) :
    readUnits (units.flatMap escapeUnit ++ rest) = units ++ readUnits rest := by
  induction units with
  | nil => rfl
  | cons unit others ih =>
      obtain ⟨w, x, y, z, hgroup, hunit⟩ := group_escapeUnit (h unit List.mem_cons_self)
      have hothers := ih fun other hother => h other (List.mem_cons_of_mem unit hother)
      rw [List.flatMap_cons, List.append_assoc, hgroup]
      show readUnits ('_' :: w :: x :: y :: z :: (others.flatMap escapeUnit ++ rest)) = _
      rw [readUnits_group hunit, hothers]
      rfl

/-! ## Reading escaped names -/

/-- An escape starts with an underscore, so a digit in an escaped name is one of
the name. -/
theorem exists_of_hexDigit (h : escapeChars name = w :: tail) (hhex : HexDigit w) :
    ∃ rest, name = w :: rest ∧ escapeChars rest = tail := by
  rcases name with _ | ⟨c, rest⟩
  · cases h
  · unfold escapeChars at h
    rw [List.flatMap_cons] at h
    by_cases hword : AsciiWord c
    · rw [escapeChar_of_word (isWordChar_iff.mpr hword)] at h
      cases h
      exact ⟨rest, rfl, rfl⟩
    · obtain ⟨others, hothers⟩ := escapeChar_of_not_word hword
      rw [hothers] at h
      cases h
      exact absurd hhex (by decide)

/-- An underscore of the name is not read as part of a group. -/
theorem Groupless.unitOf? (h : Groupless ('_' :: rest))
    (hrest : escapeChars rest = w :: x :: y :: z :: tail) :
    Identifier.unitOf? w x y z = none := by
  rw [← Option.not_isSome_iff_eq_none, isSome_unitOf?_iff]
  rintro ⟨hw, hx, hy, hz⟩
  -- All four digits would stand in the name itself.
  obtain ⟨rest₁, rfl, hrest₁⟩ := exists_of_hexDigit hrest hw
  obtain ⟨rest₂, rfl, hrest₂⟩ := exists_of_hexDigit hrest₁ hx
  obtain ⟨rest₃, rfl, hrest₃⟩ := exists_of_hexDigit hrest₂ hy
  obtain ⟨rest₄, rfl, -⟩ := exists_of_hexDigit hrest₃ hz
  exact h _ List.suffix_rfl ⟨w, x, y, z, rest₄, rfl, hw, hx, hy, hz⟩

/-- What is read in an escaped name are the units of the name. -/
theorem readUnits_escapeChars (h : Groupless name) :
    readUnits (escapeChars name) = name.flatMap units16 := by
  induction name with
  | nil => rfl
  | cons c rest ih =>
      have hsplit : escapeChars (c :: rest) = escapeChar c ++ escapeChars rest :=
        List.flatMap_cons
      rw [hsplit, List.flatMap_cons, ← ih h.of_cons]
      by_cases hword : isWordChar c = true
      · rw [escapeChar_of_word hword]
        refine readUnits_literal ?_
        rintro w x y z tail rfl hrest
        exact h.unitOf? hrest
      · unfold escapeChar
        rw [if_neg hword]
        exact readUnits_escapeUnits fun unit => units16_lt

theorem unescape?_of_plain (h : Plain s.toList) : unescape? (escape s) = some s := by
  unfold unescape?
  rw [toList_escape, guardStart_escapeChars, if_neg h.start, readUnits_escapeChars h.groupless,
    ofUnits16_flatMap, Option.map_some, String.ofList_toList]

/-- A name that starts with no digit and holds no group is read back from its
escaped form. So no two such names have the same escaped form. -/
theorem plain_names_read_back :
    (∀ s : String, Plain s.toList → unescape? (escape s) = some s) ∧
    ∀ s t : String, Plain s.toList → Plain t.toList → escape s = escape t → s = t := by
  refine ⟨fun s => unescape?_of_plain, fun s t hs ht heq => ?_⟩
  have hread := unescape?_of_plain hs
  rw [heq, unescape?_of_plain ht] at hread
  exact (Option.some.inj hread).symm

/-- A lone underscore, text that could go on a group and a character of two groups
are all read back, and a name in lower-case digits is not the escape that it
resembles. -/
theorem mixed_names_read_back :
    escape "_é0041_😀A" = "__00E90041__D83D_DE00A" ∧
      unescape? (escape "_é0041_😀A") = some "_é0041_😀A" ∧ escape "é" ≠ escape "_00e9" := by
  refine ⟨by decide +kernel, plain_names_read_back.1 _ (by decide +kernel), ?_⟩
  intro heq
  have hsame : "é" = "_00e9" :=
    plain_names_read_back.2 _ _ (by decide +kernel) (by decide +kernel) heq
  exact absurd hsame (by decide)

/-- Names that look escaped do share an escaped form with others. -/
example : escape "é" = escape "_00E9" ∧ escape "1" = escape "_1" := by decide +kernel

end Decompiled.Identifier
