import Decompiled.Json.Number
import Decompiled.Proofs.Json.Strings

/-!
# Words and numbers of JSON text

The end of a word is known from its letters. That of a number is not: its digits go on
as far as there are digits, so it ends where something else follows.

* `Grammar.Stops`: what may follow a value.
* `Grammar.readWord_word`: a word is read.
* `Grammar.skipNumber_numeral`: a number is passed over, behind its sign.
-/

namespace Decompiled.Json.Grammar

variable {b : UInt8} {rest : List UInt8}

/-- A text that no number goes on with. -/
def Stops (text : List UInt8) : Prop :=
  ∀ b, text.head? = some b → isDigit b = false ∧ b ≠ byte '.' ∧ startsExponent b = false

theorem stops_blanks (gap : List Blank) (h : Stops rest) : Stops (utf8 (blanks gap) ++ rest) := by
  cases gap with
  | nil => exact h
  | cons blank gap =>
      intro b hb
      rw [utf8_blanks_cons] at hb
      cases hb
      cases blank <;> decide

/-! ## Words -/

theorem readWord_self (word rest : List UInt8) : readWord word (word ++ rest) = .ok rest := by
  induction word with
  | nil => rfl
  | cons b word ih =>
      rw [List.cons_append, readWord, if_pos rfl, ih]

/-- A word is read by its bytes. -/
theorem readWord_word (word : String) (rest : List UInt8) :
    readWord (bytesOf word) (utf8 word.toList ++ rest) = .ok rest := by
  have hbytes : bytesOf word = utf8 word.toList := by
    rw [← bytesOf_ofList, String.ofList_toList]
  rw [hbytes, readWord_self]

/-! ## Numbers -/

theorem digit_ascii (digit : Fin 10) : (digitChar digit).toNat < 0x80 := by
  revert digit
  decide

theorem isDigit_digitChar (digit : Fin 10) : isDigit (byte (digitChar digit)) = true := by
  revert digit
  decide

/-- Digits are passed over up to where they stop. -/
theorem afterDigits_digits (digits : List (Fin 10))
    (h : ∀ b, rest.head? = some b → isDigit b = false) :
    afterDigits (utf8 (digits.map digitChar) ++ rest) = rest := by
  induction digits with
  | nil =>
      cases rest with
      | nil => rfl
      | cons b rest => exact List.dropWhile_cons_of_neg (Bool.eq_false_iff.mp (h b rfl))
  | cons digit digits ih =>
      rw [List.map_cons, utf8_cons_of_ascii (digit_ascii digit), List.cons_append]
      exact (List.dropWhile_cons_of_pos (isDigit_digitChar digit)).trans ih

theorem ne_of_isDigit {c : UInt8} (hb : isDigit b = true) (hc : isDigit c = false) : b ≠ c := by
  rintro rfl
  rw [hb] at hc
  cases hc

/-- A sign may stand in front of the digits of an exponent. -/
theorem skipExponent_digits (sign? : Option Sign) (digits : Digits) (h : Stops rest) :
    skipExponent (utf8 (sign?.toList.map Sign.char ++ digits.chars) ++ rest) = .ok rest := by
  have hfirst := isDigit_digitChar digits.first
  have hdigits : utf8 digits.chars ++ rest = byte (digitChar digits.first) ::
      (utf8 (digits.rest.map digitChar) ++ rest) := by
    rw [Digits.chars, utf8_cons_of_ascii (digit_ascii digits.first), List.cons_append]
  have hsign : (readSign (utf8 (sign?.toList.map Sign.char ++ digits.chars) ++ rest)).2 =
      utf8 digits.chars ++ rest := by
    cases sign? with
    | none =>
        show (readSign (utf8 digits.chars ++ rest)).2 = _
        rw [hdigits, readSign, if_neg (ne_of_isDigit hfirst (by decide)),
          if_neg (ne_of_isDigit hfirst (by decide))]
    | some sign => cases sign <;> rfl
  unfold skipExponent
  rw [hsign, hdigits]
  simp only [hfirst, if_true]
  rw [afterDigits_digits digits.rest fun b hb => (h b hb).1]

theorem skipOptionalExponent_exponent (exponent? : Option Exponent) (h : Stops rest) :
    skipOptionalExponent (utf8 (exponent?.elim [] Exponent.chars) ++ rest) = .ok rest := by
  cases exponent? with
  | none =>
      show skipOptionalExponent rest = .ok rest
      cases rest with
      | nil => rfl
      | cons b rest => exact if_neg (Bool.eq_false_iff.mp (h b rfl).2.2)
  | some exponent =>
      rcases exponent with ⟨upper, sign?, digits⟩
      show skipOptionalExponent (utf8 ((if upper then 'E' else 'e') ::
        (sign?.toList.map Sign.char ++ digits.chars)) ++ rest) = _
      rw [utf8_cons_of_ascii (by cases upper <;> decide), List.cons_append,
        ← skipExponent_digits sign? digits h]
      cases upper <;> rfl

/-- An exponent begins with neither a digit nor a point. -/
theorem head?_exponent (exponent? : Option Exponent) (h : Stops rest) :
    ∀ b, (utf8 (exponent?.elim [] Exponent.chars) ++ rest).head? = some b →
      isDigit b = false ∧ b ≠ byte '.' := by
  intro b hb
  cases exponent? with
  | none => exact ⟨(h b hb).1, (h b hb).2.1⟩
  | some exponent =>
      rcases exponent with ⟨upper, sign?, digits⟩
      have hletter : b = byte 'e' ∨ b = byte 'E' := by
        cases upper <;> cases hb
        · exact .inl rfl
        · exact .inr rfl
      rcases hletter with rfl | rfl <;> decide

/-- No digit follows the digits in front of the point. -/
theorem head?_tail (numeral : Numeral) (h : Stops rest) :
    ∀ b, (utf8 numeral.tail ++ rest).head? = some b → isDigit b = false := by
  rcases numeral with ⟨negative, whole, fraction?, exponent?⟩
  intro b hb
  cases fraction? with
  | none => exact (head?_exponent exponent? h b hb).1
  | some digits =>
      cases hb
      decide

theorem skipFraction_digits (digits : Digits)
    (h : ∀ b, rest.head? = some b → isDigit b = false) :
    skipFraction (utf8 digits.chars ++ rest) = skipOptionalExponent rest := by
  have hfirst := isDigit_digitChar digits.first
  have hsome : (digitsOf (utf8 digits.chars ++ rest)).isEmpty = false := by
    rw [Digits.chars, utf8_cons_of_ascii (digit_ascii digits.first), List.cons_append, digitsOf,
      List.takeWhile_cons_of_pos hfirst]
    rfl
  have hafter : afterDigits (utf8 digits.chars ++ rest) = rest :=
    afterDigits_digits (digits.first :: digits.rest) h
  unfold skipFraction
  rw [hsome, hafter]
  rfl

/-- What follows these digits is passed over. -/
theorem skipTail_tail (numeral : Numeral) (h : Stops rest) :
    skipTail (utf8 numeral.tail ++ rest) = .ok rest := by
  rcases numeral with ⟨negative, whole, fraction?, exponent?⟩
  have hexponent := skipOptionalExponent_exponent exponent? h
  have hhead := head?_exponent exponent? h
  unfold Numeral.tail
  rw [utf8_append, List.append_assoc]
  generalize utf8 (exponent?.elim [] Exponent.chars) ++ rest = more at hexponent hhead
  cases fraction? with
  | none =>
      show skipTail more = .ok rest
      rw [← hexponent]
      cases more with
      | nil => rfl
      | cons b more => exact if_neg (hhead b rfl).2
  | some digits =>
      show skipTail (utf8 ('.' :: digits.chars) ++ more) = .ok rest
      rw [utf8_cons_of_ascii (by decide), List.cons_append]
      exact (skipFraction_digits digits fun b hb => (hhead b hb).1).trans hexponent

/-- A number is passed over from behind its sign. -/
theorem skipNumber_numeral (numeral : Numeral) (h : Stops rest) :
    skipNumber (utf8 (numeral.whole.chars ++ numeral.tail) ++ rest) = .ok rest := by
  have htail := skipTail_tail numeral h
  have hhead := head?_tail numeral h
  rw [utf8_append, List.append_assoc]
  generalize utf8 numeral.tail ++ rest = more at htail hhead
  cases numeral.whole with
  | zero =>
      have hend : ¬ more.head?.any isDigit = true := by
        rw [Option.any_eq_true]
        rintro ⟨b, hb, hdigit⟩
        rw [hhead b hb] at hdigit
        cases hdigit
      exact (if_neg hend).trans htail
  | positive first digits =>
      have hfirst := isDigit_digitChar first.succ
      have hnonzero : byte (digitChar first.succ) ≠ byte '0' := by
        revert first
        decide
      rw [Whole.chars, utf8_cons_of_ascii (digit_ascii first.succ), List.cons_append, skipNumber,
        hfirst, if_neg hnonzero, afterDigits_digits digits hhead, htail]
      rfl

end Decompiled.Json.Grammar
