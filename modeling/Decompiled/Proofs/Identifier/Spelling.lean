import Mathlib.Data.List.Forall2
import Decompiled.Proofs.Identifier.Units

/-!
# How names are spelled

A valid name is left alone and any other is spelled out, character by character.
Both come to the same: each character of the name is written as itself or in
groups for its UTF-16 units, and an underscore comes first where the name starts
with a digit.

* `Identifier.Spells`: what is written for one character.
* `Identifier.toList_escape`: a name that is left alone is spelled like others.
* `Identifier.escape_spells`: what escaping does to any name.
-/

namespace Decompiled.Identifier

variable {c : Char} {s : String} {name rest : List Char}

/-- What is written for a character: itself if it is a letter, a digit or the
underscore of ASCII, and otherwise a group for each of its UTF-16 units. -/
inductive Spells (c : Char) : List Char → Prop
  | itself : AsciiWord c → Spells c [c]
  | groups {units : List Nat} {groups : List (List Char)} : ¬ AsciiWord c →
      ofUnits16 units = some [c] → List.Forall₂ Group units groups → Spells c groups.flatten

/-- Whether a name starts with a digit of ASCII. -/
def StartsWithDigit (name : List Char) : Prop := ∃ c rest, name = c :: rest ∧ AsciiDigit c

/-- A name that can be written as it is: of letters, digits and underscores of
ASCII, and with no digit first. -/
def Writable (name : List Char) : Prop := (∀ c ∈ name, AsciiWord c) ∧ ¬ StartsWithDigit name

theorem startsWithDigit_cons : StartsWithDigit (c :: rest) ↔ AsciiDigit c := by
  unfold StartsWithDigit
  constructor
  · rintro ⟨_, _, heq, hdigit⟩
    cases heq
    exact hdigit
  · exact fun hdigit => ⟨c, rest, rfl, hdigit⟩

theorem not_startsWithDigit_nil : ¬ StartsWithDigit [] := by
  rintro ⟨_, _, heq, -⟩
  cases heq

instance (name : List Char) : Decidable (StartsWithDigit name) :=
  match name with
  | [] => .isFalse not_startsWithDigit_nil
  | _ :: _ => decidable_of_iff _ startsWithDigit_cons.symm

/-- A digit may stand in a name. -/
theorem AsciiDigit.asciiWord (h : AsciiDigit c) : AsciiWord c := .inr (.inr (.inl h))

/-! ## The characters of a name -/

theorem spells_escapeChar (c : Char) : Spells c (escapeChar c) := by
  unfold escapeChar
  split
  · rename_i hword
    exact .itself (isWordChar_iff.mp hword)
  · rename_i hother
    rw [List.flatMap_def]
    refine .groups (fun hword => hother (isWordChar_iff.mpr hword)) (ofUnits16_units16 c) ?_
    rw [List.forall₂_map_right_iff, List.forall₂_same]
    exact fun unit hunit => group_escapeUnit (units16_lt hunit)

/-- What is written for a character that may not stand in a name starts with an
underscore. -/
theorem escapeChar_of_not_word (hother : ¬ AsciiWord c) :
    ∃ rest, escapeChar c = '_' :: rest := by
  unfold escapeChar
  rw [if_neg (mt isWordChar_iff.mp hother)]
  unfold units16
  simp only
  split
  · exact ⟨_, rfl⟩
  · exact ⟨_, rfl⟩

/-- Characters that may stand in a name are written as they are. -/
theorem escapeChars_of_word (hall : ∀ c ∈ name, AsciiWord c) : escapeChars name = name := by
  induction name with
  | nil => rfl
  | cons c rest ih =>
      have hword := isWordChar_iff.mpr (hall c List.mem_cons_self)
      have hrest : rest.flatMap escapeChar = rest :=
        ih fun d hd => hall d (List.mem_cons_of_mem c hd)
      unfold escapeChars
      rw [List.flatMap_cons, escapeChar_of_word hword, hrest]
      rfl

/-- The underscore in front is for a digit that comes first. -/
theorem guardStart_escapeChars (name : List Char) :
    guardStart (escapeChars name) =
      if StartsWithDigit name then '_' :: escapeChars name else escapeChars name := by
  rcases name with _ | ⟨c, rest⟩
  · rw [if_neg not_startsWithDigit_nil]
    rfl
  · simp only [startsWithDigit_cons]
    unfold escapeChars
    rw [List.flatMap_cons]
    by_cases hword : AsciiWord c
    · rw [escapeChar_of_word (isWordChar_iff.mpr hword)]
      simp only [List.singleton_append, guardStart, isStartChar_iff hword]
      split <;> simp_all
    · have hdigit : ¬ AsciiDigit c := fun h => hword h.asciiWord
      obtain ⟨tail, htail⟩ := escapeChar_of_not_word hword
      rw [htail, if_neg hdigit]
      rfl

/-! ## Whole names -/

theorem isValid_iff : isValid s = true ↔ Writable s.toList := by
  unfold isValid Writable
  rw [Bool.and_eq_true, List.all_eq_true]
  simp only [isWordChar_iff]
  refine and_congr_right fun hall => ?_
  rcases hname : s.toList with _ | ⟨c, rest⟩
  · simp [not_startsWithDigit_nil]
  · rw [hname] at hall
    rw [startsWithDigit_cons, ← isStartChar_iff (hall c List.mem_cons_self)]
    rfl

/-- A name that is left alone is spelled like all others. -/
theorem toList_escape (s : String) : (escape s).toList = guardStart (escapeChars s.toList) := by
  unfold escape escape?
  split
  · rename_i hvalid
    obtain ⟨hall, hstart⟩ := isValid_iff.mp hvalid
    rw [guardStart_escapeChars, if_neg hstart, escapeChars_of_word hall]
    rfl
  · exact String.toList_ofList

/-- What escaping does to a name. The result is of letters, digits and underscores
of ASCII, with no digit first. It is put together from what is written for each
character of the name, with an underscore in front exactly if the name starts
with a digit. Escaping it again leaves it alone. Names are left alone exactly if
they can be written as they are, and exactly these are their own escaped form. -/
theorem escape_spells (s : String) :
    Writable (escape s).toList ∧
    (∃ pieces, List.Forall₂ Spells s.toList pieces ∧
      (escape s).toList =
        (if StartsWithDigit s.toList then ['_'] else []) ++ pieces.flatten) ∧
    (escape? (escape s) = none ∧ escape (escape s) = escape s) ∧
    (escape? s = none ↔ Writable s.toList) ∧ (Writable s.toList ↔ escape s = s) := by
  have hvalid := isValid_escape s
  refine ⟨isValid_iff.mp hvalid, ⟨s.toList.map escapeChar, ?_, ?_⟩,
    ⟨escape?_eq_none_iff.mpr hvalid, escape_escape s⟩, ?_, ?_⟩
  · rw [List.forall₂_map_right_iff, List.forall₂_same]
    exact fun c _ => spells_escapeChar c
  · rw [toList_escape, guardStart_escapeChars]
    unfold escapeChars
    rw [List.flatMap_def]
    split <;> rfl
  · rw [escape?_eq_none_iff, isValid_iff]
  · rw [escape_eq_self_iff, isValid_iff]

end Decompiled.Identifier
