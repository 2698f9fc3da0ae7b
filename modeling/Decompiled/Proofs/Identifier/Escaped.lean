import Decompiled.Identifier.Escape

/-!
# Escaped names are valid

Whatever the name, its escaped form can be written as it is, so escaping it
again leaves it alone.

* `Identifier.isValid_escape`: an escaped name is valid.
* `Identifier.escape_escape`: escaping twice is escaping once.
-/

namespace Decompiled.Identifier

theorem isWordChar_hexDigit (n : Nat) : isWordChar (hexDigit (n % 16)) = true := by
  have hall : ∀ digit < 16, isWordChar (hexDigit digit) = true := by decide
  exact hall (n % 16) (Nat.mod_lt n (by decide))

theorem all_escapeUnit (unit : Nat) : (escapeUnit unit).all isWordChar = true := by
  unfold escapeUnit
  simp only [List.all_cons, List.all_nil, isWordChar_hexDigit, Bool.and_true]
  decide

/-- What stands for a character may stand in an identifier. -/
theorem all_escapeChar (c : Char) : (escapeChar c).all isWordChar = true := by
  unfold escapeChar
  split
  · rename_i hword
    simp [hword]
  · rw [List.all_flatMap, List.all_eq_true]
    exact fun unit _ => all_escapeUnit unit

theorem all_escapeChars (name : List Char) : (escapeChars name).all isWordChar = true := by
  unfold escapeChars
  rw [List.all_flatMap, List.all_eq_true]
  exact fun c _ => all_escapeChar c

/-- The underscore in front, where there is one, starts an identifier. -/
theorem isValid_guardStart {name : List Char} (h : name.all isWordChar = true) :
    isValid (String.ofList (guardStart name)) = true := by
  unfold isValid
  rw [String.toList_ofList]
  rcases name with _ | ⟨c, rest⟩
  · rfl
  · simp only [guardStart]
    by_cases hstart : isStartChar c = true
    · rw [if_pos hstart, h]
      simpa using hstart
    · rw [if_neg hstart, List.all_cons, h]
      rfl

/-- An escaped name is valid. -/
theorem isValid_escape (name : String) : isValid (escape name) = true := by
  unfold escape escape?
  split
  · assumption
  · exact isValid_guardStart (all_escapeChars name.toList)

/-- A valid name is its own escaped form. -/
theorem escape_of_isValid {name : String} (h : isValid name = true) : escape name = name := by
  unfold escape
  rw [escape?_eq_none_iff.mpr h]
  rfl

/-- No other name is. -/
theorem escape_eq_self_iff {name : String} : escape name = name ↔ isValid name = true := by
  refine ⟨fun hsame => ?_, escape_of_isValid⟩
  rw [← hsame]
  exact isValid_escape name

/-- Escaping twice is escaping once. -/
theorem escape_escape (name : String) : escape (escape name) = escape name :=
  escape_of_isValid (isValid_escape name)

/-- The escaped form of a name that needs one. -/
theorem escape_of_escape? {name escaped : String} (h : escape? name = some escaped) :
    escape name = escaped := by
  unfold escape
  rw [h]
  rfl

end Decompiled.Identifier
