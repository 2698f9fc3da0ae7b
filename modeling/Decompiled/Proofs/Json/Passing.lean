import Decompiled.Json.Skip
import Decompiled.Proofs.Json.Numbers

/-!
# Passing over values of JSON text

A value that nobody asked for is passed over by its form alone, up to exactly where it
ends. The containers that are open around it stay open.

* `Grammar.skipValueIn_value`: a value of any kind and depth is passed over.
* `Grammar.skipValueIn_element`: so is one between blanks, in a container.
-/

namespace Decompiled.Json.Grammar

variable {b : UInt8} {rest text : List UInt8} {outer : List Container} {container : Container}

theorem stops_of_closing : Stops (container.closing :: rest) := by
  rintro b ⟨⟩
  cases container <;> decide

theorem stops_of_comma : Stops (byte ',' :: rest) := by
  rintro b ⟨⟩
  decide

/-! ## Turns -/

theorem skipValueIn_of_plain (h : skipStart text = .ok (none, rest)) :
    skipValueIn outer text = skipRestOf outer rest := by
  rw [skipValueIn]
  split <;> simp_all

theorem skipValueIn_of_opening (h : skipStart text = .ok (some container, rest)) :
    skipValueIn outer text = skipValueIn (container :: outer) rest := by
  rw [skipValueIn]
  split <;> simp_all

theorem skipValueIn_of_error {fault : Fault} (h : skipStart text = .error fault) :
    skipValueIn outer text = .error fault := by
  rw [skipValueIn]
  split <;> simp_all

theorem skipRestOf_of_comma (h : skipSeparator container text = .ok (true, rest)) :
    skipRestOf (container :: outer) text = skipValueIn (container :: outer) rest := by
  rw [skipRestOf]
  split <;> simp_all

theorem skipRestOf_of_closing (h : skipSeparator container text = .ok (false, rest)) :
    skipRestOf (container :: outer) text = skipRestOf outer rest := by
  rw [skipRestOf]
  split <;> simp_all

theorem skipRestOf_of_error {fault : Fault} (h : skipSeparator container text = .error fault) :
    skipRestOf (container :: outer) text = .error fault := by
  rw [skipRestOf]
  split <;> simp_all

/-- Blanks in front of a value make no difference. -/
theorem skipValueIn_skipSpace (outer : List Container) (text : List UInt8) :
    skipValueIn outer (skipSpace text) = skipValueIn outer text := by
  have hsame : skipStart (skipSpace text) = skipStart text := by
    unfold skipStart
    rw [skipSpace_skipSpace]
  rcases hstart : skipStart text with fault | ⟨_ | container, rest⟩
  · rw [skipValueIn_of_error hstart, skipValueIn_of_error (hsame.trans hstart)]
  · rw [skipValueIn_of_plain hstart, skipValueIn_of_plain (hsame.trans hstart)]
  · rw [skipValueIn_of_opening hstart, skipValueIn_of_opening (hsame.trans hstart)]

theorem skipValueIn_blanks (outer : List Container) (gap : List Blank) (text : List UInt8) :
    skipValueIn outer (utf8 (blanks gap) ++ text) = skipValueIn outer text := by
  rw [← skipValueIn_skipSpace, skipSpace_blanks, skipValueIn_skipSpace]

/-- Neither do blanks behind a value in a container. -/
theorem skipRestOf_blanks (container : Container) (outer : List Container) (gap : List Blank)
    (text : List UInt8) :
    skipRestOf (container :: outer) (utf8 (blanks gap) ++ text) =
      skipRestOf (container :: outer) text := by
  have hsame : skipSeparator container (utf8 (blanks gap) ++ text) =
      skipSeparator container text := by
    unfold skipSeparator
    rw [skipSpace_blanks]
  rcases hnext : skipSeparator container text with fault | ⟨_ | _, rest⟩
  · rw [skipRestOf_of_error hnext, skipRestOf_of_error (hsame.trans hnext)]
  · rw [skipRestOf_of_closing hnext, skipRestOf_of_closing (hsame.trans hnext)]
  · rw [skipRestOf_of_comma hnext, skipRestOf_of_comma (hsame.trans hnext)]

/-- A container that is closed has nothing left. -/
theorem skipRestOf_closing (container : Container) (outer : List Container) (rest : List UInt8) :
    skipRestOf (container :: outer) (container.closing :: rest) = skipRestOf outer rest := by
  refine skipRestOf_of_closing ?_
  cases container <;> rfl

/-! ## Keys -/

theorem readColon_blanks (gap : List Blank) (rest : List UInt8) :
    readColon (utf8 (blanks gap) ++ byte ':' :: rest) = .ok rest := by
  unfold readColon
  rw [skipSpace_blanks, skipSpace_cons (by decide)]
  exact if_pos rfl

theorem utf8_quoted (pieces : List Piece) (rest : List UInt8) :
    utf8 (quoted pieces) ++ rest =
      byte '"' :: (utf8 (pieces.flatMap Piece.chars) ++ byte '"' :: rest) := by
  show utf8 ('"' :: (pieces.flatMap Piece.chars ++ ['"'])) ++ rest = _
  rw [utf8_cons_of_ascii (by decide), utf8_append, utf8_cons_of_ascii (by decide)]
  simp

/-- A member without the value. -/
def keyPart (before : List Blank) (key : List Piece) (after : List Blank) : List Char :=
  blanks before ++ quoted key ++ blanks after

theorem skipSpace_keyPart (before after : List Blank) (key : List Piece) (rest : List UInt8) :
    skipSpace (utf8 (keyPart before key after) ++ byte ':' :: rest) =
      byte '"' :: (utf8 (key.flatMap Piece.chars) ++
        byte '"' :: (utf8 (blanks after) ++ byte ':' :: rest)) := by
  unfold keyPart
  rw [utf8_append, utf8_append, List.append_assoc, List.append_assoc, skipSpace_blanks,
    utf8_quoted, skipSpace_cons (by decide)]

/-- A key is passed over, and the colon behind it. -/
theorem skipKey_keyPart (before after : List Blank) (key : List Piece) (rest : List UInt8) :
    skipKey (utf8 (keyPart before key after) ++ byte ':' :: rest) = .ok rest := by
  unfold skipKey
  rw [skipSpace_keyPart]
  show (skipString _ >>= readColon) = _
  rw [skipString_pieces]
  exact readColon_blanks after rest

/-- So they are behind a comma. -/
theorem skipSeparator_member (before after : List Blank) (key : List Piece)
    (rest : List UInt8) :
    skipSeparator .object (byte ',' :: (utf8 (keyPart before key after) ++ byte ':' :: rest)) =
      .ok (true, rest) := by
  show (skipKey _ >>= fun rest => .ok (true, rest)) = _
  rw [skipKey_keyPart]
  rfl

theorem utf8_member (before after : List Blank) (key : List Piece) (element : Element) :
    utf8 (Member.mk before key after element).chars =
      utf8 (keyPart before key after) ++ byte ':' :: utf8 element.chars := by
  rw [Member.chars, utf8_append, utf8_cons_of_ascii (by decide)]
  rfl

/-! ## Where values begin -/

theorem isSpace_of_isDigit (h : isDigit b = true) : isSpace b = false := by
  unfold isSpace
  simp only [Bool.or_eq_false_iff, beq_eq_false_iff_ne]
  exact ⟨⟨⟨ne_of_isDigit h (by decide), ne_of_isDigit h (by decide)⟩,
    ne_of_isDigit h (by decide)⟩, ne_of_isDigit h (by decide)⟩

/-- Where a number without its sign begins. -/
theorem utf8_whole (whole : Whole) : ∃ b more, utf8 whole.chars = b :: more ∧
    isDigit b = true := by
  cases whole with
  | zero => exact ⟨_, _, rfl, by decide⟩
  | positive first rest =>
      exact ⟨_, _, utf8_cons_of_ascii (digit_ascii first.succ), isDigit_digitChar first.succ⟩

/-- A number begins with its sign or a digit. -/
theorem utf8_numeral (numeral : Numeral) : ∃ b more, utf8 numeral.chars = b :: more ∧
    (b = byte '-' ∨ isDigit b = true) := by
  unfold Numeral.chars
  cases numeral.negative with
  | true => exact ⟨_, _, rfl, .inl rfl⟩
  | false =>
      obtain ⟨b, more, hwhole, hdigit⟩ := utf8_whole numeral.whole
      refine ⟨b, more ++ utf8 numeral.tail, ?_, .inr hdigit⟩
      show utf8 (numeral.whole.chars ++ numeral.tail) = _
      rw [utf8_append, hwhole, List.cons_append]

/-- A value begins with neither a blank nor the end of a list, and only two values begin
with their letters. -/
theorem utf8_value (value : Value) : ∃ b more, utf8 value.chars = b :: more ∧
    isSpace b = false ∧ b ≠ byte ']' ∧
      (b = byte 't' ∨ b = byte 'f' → ∃ truth, value = .boolean truth) := by
  cases value with
  | null => exact ⟨_, _, rfl, by decide, by decide, fun h => absurd h (by decide)⟩
  | boolean truth =>
      cases truth <;> exact ⟨_, _, rfl, by decide, by decide, fun _ => ⟨_, rfl⟩⟩
  | number numeral =>
      obtain ⟨b, more, hchars, rfl | hdigit⟩ := utf8_numeral numeral
      · exact ⟨_, more, hchars, by decide, by decide, fun h => absurd h (by decide)⟩
      · refine ⟨b, more, hchars, isSpace_of_isDigit hdigit, ne_of_isDigit hdigit (by decide), ?_⟩
        rintro (h | h)
        · exact absurd h (ne_of_isDigit hdigit (by decide))
        · exact absurd h (ne_of_isDigit hdigit (by decide))
  | string pieces => exact ⟨_, _, rfl, by decide, by decide, fun h => absurd h (by decide)⟩
  | list gap elements => exact ⟨_, _, rfl, by decide, by decide, fun h => absurd h (by decide)⟩
  | object gap members => exact ⟨_, _, rfl, by decide, by decide, fun h => absurd h (by decide)⟩

/-! ## Values without parts -/

theorem skipStart_null (rest : List UInt8) :
    skipStart (utf8 Value.null.chars ++ rest) = .ok (none, rest) :=
  congrArg (Except.map _) (readWord_word "ull" rest)

theorem skipStart_true (rest : List UInt8) :
    skipStart (utf8 (Value.boolean true).chars ++ rest) = .ok (none, rest) :=
  congrArg (Except.map _) (readWord_word "rue" rest)

theorem skipStart_false (rest : List UInt8) :
    skipStart (utf8 (Value.boolean false).chars ++ rest) = .ok (none, rest) :=
  congrArg (Except.map _) (readWord_word "alse" rest)

theorem skipStart_digit (h : isDigit b = true) :
    skipStart (b :: text) = (skipNumber (b :: text)).map fun rest => (none, rest) := by
  unfold skipStart
  rw [skipSpace_cons (isSpace_of_isDigit h)]
  simp only
  rw [if_neg (ne_of_isDigit h (by decide)), if_neg (ne_of_isDigit h (by decide)),
    if_neg (ne_of_isDigit h (by decide)), if_neg (ne_of_isDigit h (by decide)), if_pos h]

/-- A number is passed over, with its sign. -/
theorem skipStart_numeral (numeral : Numeral) (h : Stops rest) :
    skipStart (utf8 numeral.chars ++ rest) = .ok (none, rest) := by
  have hnumber := skipNumber_numeral numeral h
  unfold Numeral.chars
  rw [List.append_assoc]
  cases numeral.negative with
  | true =>
      show (skipNumber (utf8 (numeral.whole.chars ++ numeral.tail) ++ rest)).map _ = _
      rw [hnumber]
      rfl
  | false =>
      show skipStart (utf8 (numeral.whole.chars ++ numeral.tail) ++ rest) = _
      obtain ⟨b, more, hwhole, hdigit⟩ := utf8_whole numeral.whole
      rw [utf8_append, hwhole] at hnumber ⊢
      exact (skipStart_digit hdigit).trans (congrArg _ hnumber)

theorem skipStart_string (pieces : List Piece) (rest : List UInt8) :
    skipStart (utf8 (quoted pieces) ++ rest) = .ok (none, rest) := by
  rw [utf8_quoted]
  exact congrArg (Except.map _) (skipString_pieces pieces rest)

/-! ## Containers -/

section Parts

variable {opening closing : Char} (hopening : opening.toNat < 0x80)
  (hclosing : String.utf8EncodeChar closing = [container.closing])

include hopening hclosing

/-- The bytes of a container without parts. -/
theorem utf8_empty (gap : List Blank) (rest : List UInt8) :
    utf8 (opening :: (blanks gap ++ separated [] ++ [closing])) ++ rest =
      byte opening :: (utf8 (blanks gap) ++ container.closing :: rest) := by
  rw [utf8_cons_of_ascii hopening, utf8_append, utf8_append, utf8_cons, hclosing]
  simp [separated]

/-- The bytes of one with parts. -/
theorem utf8_parts (gap : List Blank) (first : List Char) (parts : List (List Char))
    (rest : List UInt8) :
    utf8 (opening :: (blanks gap ++ separated (first :: parts) ++ [closing])) ++ rest =
      byte opening :: (utf8 (blanks gap) ++ (utf8 first ++
        (utf8 (parts.flatMap (',' :: ·)) ++ container.closing :: rest))) := by
  rw [utf8_cons_of_ascii hopening, utf8_append, utf8_append, utf8_cons, hclosing]
  simp [separated]

end Parts

theorem utf8_listEnd : String.utf8EncodeChar ']' = [Container.closing .list] := rfl

theorem utf8_objectEnd : String.utf8EncodeChar '\x7d' = [Container.closing .object] := rfl

/-- The bytes of further parts. -/
theorem utf8_further (part : List Char) (parts : List (List Char)) (rest : List UInt8) :
    utf8 ((part :: parts).flatMap (',' :: ·)) ++ rest =
      byte ',' :: (utf8 part ++ (utf8 (parts.flatMap (',' :: ·)) ++ rest)) := by
  rw [List.flatMap_cons, List.cons_append, utf8_cons_of_ascii (by decide)]
  simp

/-- What follows a part is a comma or the end. -/
theorem stops_further (container : Container) (parts : List (List Char)) (rest : List UInt8) :
    Stops (utf8 (parts.flatMap (',' :: ·)) ++ container.closing :: rest) := by
  cases parts with
  | nil => exact stops_of_closing
  | cons part parts =>
      rw [utf8_further]
      exact stops_of_comma

theorem skipOpening_empty (container : Container) (gap : List Blank) (rest : List UInt8) :
    skipOpening container (utf8 (blanks gap) ++ container.closing :: rest) = .ok (none, rest) := by
  unfold skipOpening
  rw [skipSpace_blanks, skipSpace_cons (by cases container <;> decide)]
  exact if_pos rfl

/-- The first element of a list stays, with no blanks in front. -/
theorem skipOpening_element (gap : List Blank) (element : Element) (rest : List UInt8) :
    skipOpening .list (utf8 (blanks gap) ++ (utf8 element.chars ++ rest)) =
      .ok (some .list, skipSpace (utf8 element.chars ++ rest)) := by
  rcases element with ⟨before, value, after⟩
  obtain ⟨b, more, hvalue, hspace, hne, -⟩ := utf8_value value
  have hbegins : skipSpace (utf8 (Element.mk before value after).chars ++ rest) =
      b :: (more ++ (utf8 (blanks after) ++ rest)) := by
    rw [Element.chars, utf8_append, utf8_append, List.append_assoc, List.append_assoc,
      skipSpace_blanks, hvalue, List.cons_append, skipSpace_cons hspace]
  unfold skipOpening
  rw [skipSpace_blanks, hbegins]
  exact if_neg hne

theorem skipKey_skipSpace (text : List UInt8) : skipKey (skipSpace text) = skipKey text := by
  unfold skipKey
  rw [skipSpace_skipSpace]

/-- The key of the first member of an object is passed over. -/
theorem skipOpening_member (gap before after : List Blank) (key : List Piece)
    (rest : List UInt8) :
    skipOpening .object (utf8 (blanks gap) ++ (utf8 (keyPart before key after) ++
      byte ':' :: rest)) = .ok (some .object, rest) := by
  have hkey := skipKey_keyPart before after key rest
  rw [← skipKey_skipSpace, skipSpace_keyPart] at hkey
  unfold skipOpening
  rw [skipSpace_blanks, skipSpace_keyPart]
  simp only [hkey]
  rfl

/-! ## Values -/

-- By recursion on the tree. The containers that are open around it are any, since those
-- that it opens are added to them and closed again.
mutual

/-- A value of any kind and depth is passed over. -/
theorem skipValueIn_value : ∀ (value : Value) (outer : List Container) (rest : List UInt8),
    Stops rest → skipValueIn outer (utf8 value.chars ++ rest) = skipRestOf outer rest
  | .null, outer, rest, h => skipValueIn_of_plain (skipStart_null rest)
  | .boolean true, outer, rest, h => skipValueIn_of_plain (skipStart_true rest)
  | .boolean false, outer, rest, h => skipValueIn_of_plain (skipStart_false rest)
  | .number numeral, outer, rest, h => skipValueIn_of_plain (skipStart_numeral numeral h)
  | .string pieces, outer, rest, h => skipValueIn_of_plain (skipStart_string pieces rest)
  | .list gap [], outer, rest, h => by
      rw [Value.chars, spellElements, utf8_empty (by decide) utf8_listEnd gap rest]
      exact skipValueIn_of_plain (skipOpening_empty .list gap rest)
  | .list gap (first :: elements), outer, rest, h => by
      rw [Value.chars, spellElements, utf8_parts (by decide) utf8_listEnd gap first.chars _ rest,
        skipValueIn_of_opening (show skipStart (byte '[' :: _) = _ from
          skipOpening_element gap first _), skipValueIn_skipSpace,
        skipValueIn_element first .list outer _ (stops_further .list _ rest),
        skipRestOf_elements elements outer rest]
  | .object gap [], outer, rest, h => by
      rw [Value.chars, spellMembers, utf8_empty (by decide) utf8_objectEnd gap rest]
      exact skipValueIn_of_plain (skipOpening_empty .object gap rest)
  | .object gap (.mk before key after element :: members), outer, rest, h => by
      rw [Value.chars, spellMembers, utf8_parts (by decide) utf8_objectEnd gap _ _ rest,
        utf8_member, List.append_assoc, List.cons_append,
        skipValueIn_of_opening (show skipStart (byte '\x7b' :: _) = _ from
          skipOpening_member gap before after key _),
        skipValueIn_element element .object outer _ (stops_further .object _ rest),
        skipRestOf_members members outer rest]

theorem skipValueIn_element : ∀ (element : Element) (container : Container)
    (outer : List Container) (rest : List UInt8), Stops rest →
    skipValueIn (container :: outer) (utf8 element.chars ++ rest) =
      skipRestOf (container :: outer) rest
  | .mk before value after, container, outer, rest, h => by
      rw [Element.chars, utf8_append, utf8_append, List.append_assoc, List.append_assoc,
        skipValueIn_blanks,
        skipValueIn_value value (container :: outer) _ (stops_blanks after h), skipRestOf_blanks]

/-- So are the elements of a list that come after the first. -/
theorem skipRestOf_elements : ∀ (elements : List Element) (outer : List Container)
    (rest : List UInt8),
    skipRestOf (.list :: outer) (utf8 ((spellElements elements).flatMap (',' :: ·)) ++
      Container.closing .list :: rest) = skipRestOf outer rest
  | [], outer, rest => skipRestOf_closing .list outer rest
  | element :: elements, outer, rest => by
      rw [spellElements, utf8_further, skipRestOf_of_comma rfl,
        skipValueIn_element element .list outer _ (stops_further .list _ rest),
        skipRestOf_elements elements outer rest]

/-- And the members of an object. -/
theorem skipRestOf_members : ∀ (members : List Member) (outer : List Container)
    (rest : List UInt8),
    skipRestOf (.object :: outer) (utf8 ((spellMembers members).flatMap (',' :: ·)) ++
      Container.closing .object :: rest) = skipRestOf outer rest
  | [], outer, rest => skipRestOf_closing .object outer rest
  | .mk before key after element :: members, outer, rest => by
      rw [spellMembers, utf8_further, utf8_member, List.append_assoc, List.cons_append,
        skipRestOf_of_comma (skipSeparator_member before after key _),
        skipValueIn_element element .object outer _ (stops_further .object _ rest),
        skipRestOf_members members outer rest]

end

end Decompiled.Json.Grammar
