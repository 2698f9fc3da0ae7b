import Mathlib.Data.List.DropRight
import Decompiled.Json.Text
import Decompiled.Proofs.Json.Grammar

/-!
# Blanks and strings of JSON text

The readers work on bytes, the grammar on characters. All that has a meaning in a text
is ASCII, where a character is one byte; any other character is made of bytes that mean
nothing.

* `Grammar.skipSpace_blanks`: blanks are passed over.
* `Grammar.skipString_pieces`: a string is passed over, whatever its escapes are.
* `Grammar.readString_pieces`: a string is read as what it says.
-/

namespace Decompiled.Json.Grammar

variable {b : UInt8} {c : Char} {chars more : List Char} {bytes rest seen text : List UInt8}

/-! ## Bytes of characters -/

/-- The bytes of characters. -/
def utf8 (chars : List Char) : List UInt8 := chars.flatMap String.utf8EncodeChar

@[simp] theorem utf8_nil : utf8 [] = [] := rfl

@[simp] theorem utf8_append : utf8 (chars ++ more) = utf8 chars ++ utf8 more :=
  List.flatMap_append

theorem utf8_cons : utf8 (c :: chars) = String.utf8EncodeChar c ++ utf8 chars := rfl

theorem utf8EncodeChar_of_ascii (h : c.toNat < 0x80) : String.utf8EncodeChar c = [byte c] :=
  if_pos (Nat.le_of_lt_succ h)

theorem utf8_cons_of_ascii (h : c.toNat < 0x80) : utf8 (c :: chars) = byte c :: utf8 chars := by
  rw [utf8_cons, utf8EncodeChar_of_ascii h]
  rfl

theorem toList_eq_data (array : ByteArray) : array.toList = array.data.toList := by
  -- The loop has read `i` bytes, and holds them the last one first.
  suffices hloop : ∀ i front,
      ByteArray.toList.loop array i front = front.reverse ++ array.data.toList.drop i by
    exact hloop 0 []
  intro i front
  fun_induction ByteArray.toList.loop array i front with
  | case1 i front hi ih =>
      have hlt : i < array.data.toList.length := hi
      have hbyte : array.get! i = array.data.toList[i] := getElem!_pos array.data i hi
      rw [ih, List.reverse_cons, List.append_assoc, List.drop_eq_getElem_cons hlt, hbyte]
      rfl
  | case2 i front hi => rw [List.drop_eq_nil_of_le (Nat.le_of_not_lt hi), List.append_nil]

theorem bytesOf_ofList : bytesOf (String.ofList chars) = utf8 chars := by
  unfold bytesOf String.toUTF8
  rw [toList_eq_data, String.toByteArray_ofList]
  exact List.toList_data_toByteArray

/-- Texts with the same bytes are the same. -/
theorem bytesOf_inj {s t : String} : bytesOf s = bytesOf t ↔ s = t := by
  refine ⟨fun h => ?_, congrArg bytesOf⟩
  unfold bytesOf String.toUTF8 at h
  rw [toList_eq_data, toList_eq_data] at h
  exact String.toByteArray_inj.mp (ByteArray.ext (Array.toList_inj.mp h))

/-! ## Blanks -/

theorem blank_ascii (blank : Blank) : blank.char.toNat < 0x80 := by cases blank <;> decide

theorem isSpace_blank (blank : Blank) : isSpace (byte blank.char) = true := by
  cases blank <;> decide

theorem utf8_blanks_cons (blank : Blank) (gap : List Blank) :
    utf8 (blanks (blank :: gap)) = byte blank.char :: utf8 (blanks gap) :=
  utf8_cons_of_ascii (blank_ascii blank)

/-- Blanks are passed over. -/
@[simp] theorem skipSpace_blanks (gap : List Blank) (rest : List UInt8) :
    skipSpace (utf8 (blanks gap) ++ rest) = skipSpace rest := by
  induction gap with
  | nil => rfl
  | cons blank gap ih =>
      rw [utf8_blanks_cons, List.cons_append, ← ih]
      exact List.dropWhile_cons_of_pos (isSpace_blank blank)

theorem skipSpace_cons (h : isSpace b = false) : skipSpace (b :: rest) = b :: rest :=
  List.dropWhile_cons_of_neg (Bool.eq_false_iff.mp h)

/-- What is left has no blanks in front. -/
theorem skipSpace_skipSpace (text : List UInt8) : skipSpace (skipSpace text) = skipSpace text :=
  List.dropWhile_idempotent isSpace text

/-! ## Characters of strings -/

/-- A byte of a string that stands for itself. -/
def Inside (b : UInt8) : Prop := b ≠ byte '"' ∧ b ≠ byte '\\' ∧ isControl b = false

theorem inside_of_toNat (hquote : b.toNat ≠ 0x22) (hbackslash : b.toNat ≠ 0x5C)
    (hcontrol : 0x20 ≤ b.toNat) : Inside b := by
  refine ⟨fun h => hquote (congrArg UInt8.toNat h), fun h => hbackslash (congrArg UInt8.toNat h),
    decide_eq_false fun h => ?_⟩
  have hlt : b.toNat < 0x20 := UInt8.lt_iff_toNat_lt.mp h
  omega

/-- A character that stands for itself is made of such bytes. -/
theorem inside_of_plain (c : PlainChar) (h : b ∈ String.utf8EncodeChar c.char) : Inside b := by
  obtain ⟨hlow, hquote, hbackslash⟩ := c.plain
  by_cases hascii : c.char.toNat < 0x80
  · have hone : String.utf8EncodeChar c.char = [UInt8.ofNat c.char.toNat] :=
      if_pos (Nat.le_of_lt_succ hascii)
    rw [hone, List.mem_singleton] at h
    have hb : b.toNat = c.char.toNat := by
      rw [h, UInt8.toNat_ofNat']
      omega
    refine inside_of_toNat ?_ ?_ ?_
    · exact fun h => hquote (Char.toNat_inj.mp (hb.symm.trans h))
    · exact fun h => hbackslash (Char.toNat_inj.mp (hb.symm.trans h))
    · omega
  · -- All bytes of other characters have the highest bit.
    have hhigh : 0x80 ≤ b.toNat := by
      have hnot : ¬ c.char.val.toNat ≤ 127 := fun hle => hascii (Nat.lt_succ_of_le hle)
      unfold String.utf8EncodeChar at h
      simp only [if_neg hnot] at h
      split at h
      · simp only [List.mem_cons, List.not_mem_nil, or_false] at h
        rcases h with rfl | rfl <;> rw [UInt8.toNat_ofNat'] <;> omega
      split at h
      · simp only [List.mem_cons, List.not_mem_nil, or_false] at h
        rcases h with rfl | rfl | rfl <;> rw [UInt8.toNat_ofNat'] <;> omega
      · simp only [List.mem_cons, List.not_mem_nil, or_false] at h
        rcases h with rfl | rfl | rfl | rfl <;> rw [UInt8.toNat_ofNat'] <;> omega
    exact inside_of_toNat (by omega) (by omega) (by omega)

theorem char_ascii (digit : HexDigit) : digit.char.toNat < 0x80 := by
  rcases digit with ⟨value, upper⟩
  revert value upper
  decide

theorem hexValue?_char (digit : HexDigit) :
    hexValue? (byte digit.char) = some digit.value.val := by
  rcases digit with ⟨value, upper⟩
  revert value upper
  decide

theorem unitOf_lt (a b c d : HexDigit) : unitOf a b c d < 0x10000 := by
  have ha := a.value.isLt
  have hb := b.value.isLt
  have hc := c.value.isLt
  have hd := d.value.isLt
  unfold unitOf
  omega

theorem readHex_digits (a b c d : HexDigit) (rest : List UInt8) :
    readHex (utf8 [a.char, b.char, c.char, d.char] ++ rest) = .ok (unitOf a b c d, rest) := by
  simp only [utf8_cons_of_ascii (char_ascii _), utf8_nil, List.cons_append, List.nil_append,
    readHex, hexValue?_char, unitOf]

theorem utf8_unicode (a b c d : HexDigit) (rest : List UInt8) :
    utf8 (Piece.unicode a b c d).chars ++ rest =
      byte '\\' :: byte 'u' :: (utf8 [a.char, b.char, c.char, d.char] ++ rest) := by
  show utf8 ('\\' :: 'u' :: [a.char, b.char, c.char, d.char]) ++ rest = _
  rw [utf8_cons_of_ascii (by decide), utf8_cons_of_ascii (by decide)]
  rfl

theorem letter_ascii (e : Escape) : e.letter.toNat < 0x80 := by cases e <;> decide

theorem escaped_ascii (e : Escape) : e.char.toNat < 0x80 := by cases e <;> decide

theorem utf8_escape (e : Escape) (rest : List UInt8) :
    utf8 (Piece.escape e).chars ++ rest = byte '\\' :: byte e.letter :: rest := by
  show utf8 ['\\', e.letter] ++ rest = _
  rw [utf8_cons_of_ascii (by decide), utf8_cons_of_ascii (letter_ascii e)]
  rfl

/-! ## Passing over strings -/

theorem skipString_of_step (h : skipStep text = .ok (false, rest)) :
    skipString text = skipString rest := by
  rw [skipString.eq_def]
  split <;> simp_all

theorem skipString_of_end (h : skipStep text = .ok (true, rest)) : skipString text = .ok rest := by
  rw [skipString.eq_def]
  split <;> simp_all

theorem skipStep_escape (e : Escape) (rest : List UInt8) :
    skipStep (byte '\\' :: byte e.letter :: rest) = .ok (false, rest) := by
  cases e <;> rfl

/-- Bytes that stand for themselves are passed over. -/
theorem skipString_inside (h : ∀ b ∈ bytes, Inside b) (rest : List UInt8) :
    skipString (bytes ++ rest) = skipString rest := by
  induction bytes with
  | nil => rfl
  | cons b bytes ih =>
      obtain ⟨hquote, hbackslash, hcontrol⟩ := h b List.mem_cons_self
      have hstep : skipStep (b :: (bytes ++ rest)) = .ok (false, bytes ++ rest) := by
        simp [skipStep, hquote, hbackslash, hcontrol]
      rw [List.cons_append, skipString_of_step hstep]
      exact ih fun b hb => h b (List.mem_cons_of_mem _ hb)

/-- So is each part of a string. -/
theorem skipString_piece (piece : Piece) (rest : List UInt8) :
    skipString (utf8 piece.chars ++ rest) = skipString rest := by
  cases piece with
  | plain c =>
      show skipString (utf8 [c.char] ++ rest) = _
      rw [utf8_cons, utf8_nil, List.append_nil]
      exact skipString_inside (fun b => inside_of_plain c) rest
  | escape e =>
      rw [utf8_escape]
      exact skipString_of_step (skipStep_escape e rest)
  | unicode a b c d =>
      refine skipString_of_step ?_
      rw [utf8_unicode]
      show (readHex (utf8 [a.char, b.char, c.char, d.char] ++ rest) >>=
        fun text => .ok text.2) >>= (fun text => .ok (false, text)) = _
      rw [readHex_digits]
      rfl

/-- A string is passed over up to behind its closing quote. -/
theorem skipString_pieces (pieces : List Piece) (rest : List UInt8) :
    skipString (utf8 (pieces.flatMap Piece.chars) ++ byte '"' :: rest) = .ok rest := by
  induction pieces with
  | nil => exact skipString_of_end rfl
  | cons piece pieces ih =>
      rw [List.flatMap_cons, utf8_append, List.append_assoc, skipString_piece, ih]

/-! ## Reading strings -/

theorem readStringOnto_of_step (h : readStep text = .ok (some bytes, rest)) :
    readStringOnto seen text = readStringOnto (bytes.reverse ++ seen) rest := by
  rw [readStringOnto.eq_def]
  split <;> simp_all

theorem readStringOnto_of_end (h : readStep text = .ok (none, rest)) :
    readStringOnto seen text = .ok (seen.reverse, rest) := by
  rw [readStringOnto.eq_def]
  split <;> simp_all

theorem readStringOnto_inside (h : ∀ b ∈ bytes, Inside b) (seen rest : List UInt8) :
    readStringOnto seen (bytes ++ rest) = readStringOnto (bytes.reverse ++ seen) rest := by
  induction bytes generalizing seen with
  | nil => rfl
  | cons b bytes ih =>
      obtain ⟨hquote, hbackslash, hcontrol⟩ := h b List.mem_cons_self
      have hstep : readStep (b :: (bytes ++ rest)) = .ok (some [b], bytes ++ rest) := by
        simp [readStep, hquote, hbackslash, hcontrol]
      rw [List.cons_append, readStringOnto_of_step hstep,
        ih fun b hb => h b (List.mem_cons_of_mem _ hb)]
      simp

theorem readStep_escape (e : Escape) (rest : List UInt8) :
    readStep (byte '\\' :: byte e.letter :: rest) = .ok (some [byte e.char], rest) := by
  cases e <;> rfl

/-- A piece that is a character of its own is read as this character. -/
theorem readStringOnto_plain (c : PlainChar) (seen rest : List UInt8) :
    readStringOnto seen (utf8 (Piece.plain c).chars ++ rest) =
      readStringOnto ((utf8 [c.char]).reverse ++ seen) rest := by
  show readStringOnto seen (utf8 [c.char] ++ rest) = _
  rw [utf8_cons, utf8_nil, List.append_nil]
  exact readStringOnto_inside (fun b => inside_of_plain c) seen rest

theorem readStringOnto_escape (e : Escape) (seen rest : List UInt8) :
    readStringOnto seen (utf8 (Piece.escape e).chars ++ rest) =
      readStringOnto ((utf8 [e.char]).reverse ++ seen) rest := by
  rw [utf8_escape, readStringOnto_of_step (readStep_escape e rest),
    utf8_cons_of_ascii (escaped_ascii e)]
  rfl

theorem readStringOnto_unicode {a b c d : HexDigit}
    (h : unitOf a b c d < 0xD800 ∨ 0xE000 ≤ unitOf a b c d) (seen rest : List UInt8) :
    readStringOnto seen (utf8 (Piece.unicode a b c d).chars ++ rest) =
      readStringOnto ((utf8 [Char.ofNat (unitOf a b c d)]).reverse ++ seen) rest := by
  have hunit : readUnicode (utf8 [a.char, b.char, c.char, d.char] ++ rest) =
      .ok (Char.ofNat (unitOf a b c d), rest) := by
    have htrailing : isTrailing (unitOf a b c d) = false := by
      simp [isTrailing]
      omega
    have hleading : isLeading (unitOf a b c d) = false := by
      simp [isLeading]
      omega
    unfold readUnicode
    rw [readHex_digits]
    simp [htrailing, hleading, bind, Except.bind]
  rw [utf8_unicode]
  refine readStringOnto_of_step ?_
  show ((readUnicode _ >>= fun read => .ok (String.utf8EncodeChar read.1, read.2)) >>=
    fun read => .ok (some read.1, read.2)) = _
  rw [hunit]
  simp [bind, Except.bind, utf8_cons]

/-- Two halves of a pair are read as one character. -/
theorem readStringOnto_pair {a b c d a' b' c' d' : HexDigit}
    (hhigh : 0xD800 ≤ unitOf a b c d ∧ unitOf a b c d < 0xDC00)
    (hlow : 0xDC00 ≤ unitOf a' b' c' d' ∧ unitOf a' b' c' d' < 0xE000)
    (seen rest : List UInt8) :
    readStringOnto seen (utf8 (Piece.unicode a b c d).chars ++
        (utf8 (Piece.unicode a' b' c' d').chars ++ rest)) =
      readStringOnto ((utf8 [pairChar (unitOf a b c d) (unitOf a' b' c' d')]).reverse ++ seen)
        rest := by
  have hsecond : readTrailing (unitOf a b c d) (utf8 (Piece.unicode a' b' c' d').chars ++ rest) =
      .ok (pairChar (unitOf a b c d) (unitOf a' b' c' d'), rest) := by
    have htrailing : isTrailing (unitOf a' b' c' d') = true := by
      simp [isTrailing]
      omega
    rw [utf8_unicode]
    show (readHex _ >>= fun read => if isTrailing read.1 then _ else _) = _
    rw [readHex_digits]
    exact if_pos htrailing
  have hboth : readUnicode (utf8 [a.char, b.char, c.char, d.char] ++
      (utf8 (Piece.unicode a' b' c' d').chars ++ rest)) =
      .ok (pairChar (unitOf a b c d) (unitOf a' b' c' d'), rest) := by
    have htrailing : isTrailing (unitOf a b c d) = false := by
      simp [isTrailing]
      omega
    have hleading : isLeading (unitOf a b c d) = true := by
      simp [isLeading]
      omega
    unfold readUnicode
    rw [readHex_digits]
    simp [htrailing, hleading, bind, Except.bind, hsecond]
  rw [utf8_unicode a b c d]
  refine readStringOnto_of_step ?_
  show ((readUnicode _ >>= fun read => .ok (String.utf8EncodeChar read.1, read.2)) >>=
    fun read => .ok (some read.1, read.2)) = _
  rw [hboth]
  simp [bind, Except.bind, utf8_cons]

/-- The first unit of a character is not the second half of a pair. -/
theorem first_of_units16 (c : Char) : ∃ first more, Identifier.units16 c = first :: more ∧
    (first < 0xDC00 ∨ 0xE000 ≤ first) := by
  have hbounds := Identifier.toNat_bounds c
  unfold Identifier.units16
  simp only
  split
  · exact ⟨_, _, rfl, by omega⟩
  · exact ⟨_, _, rfl, by omega⟩

/-- So a second half comes from an escape. -/
theorem unicode_of_trailing {pieces : List Piece} {low : Nat} {units : List Nat}
    (h : pieces.flatMap Piece.units = low :: units) (hlow : 0xDC00 ≤ low ∧ low < 0xE000) :
    ∃ a b c d more, pieces = .unicode a b c d :: more ∧ unitOf a b c d = low ∧
      more.flatMap Piece.units = units := by
  cases pieces with
  | nil => cases h
  | cons piece pieces =>
      rw [List.flatMap_cons] at h
      cases piece with
      | plain c =>
          obtain ⟨first, more, hunits, hnot⟩ := first_of_units16 c.char
          rw [Piece.units, hunits] at h
          have hfirst : first = low := (List.cons.inj h).1
          omega
      | escape e =>
          obtain ⟨first, more, hunits, hnot⟩ := first_of_units16 e.char
          rw [Piece.units, hunits] at h
          have hfirst : first = low := (List.cons.inj h).1
          omega
      | unicode a b c d =>
          obtain ⟨hunit, hrest⟩ := List.cons.inj h
          exact ⟨a, b, c, d, pieces, rfl, hunit, hrest⟩

/-- What stands for characters and begins with a surrogate begins with a pair. -/
theorem ofUnits16_surrogate {unit : Nat} {units : List Nat} {said : List Char}
    (h : Identifier.ofUnits16 (unit :: units) = some said)
    (hsurrogate : ¬ (unit < 0xD800 ∨ (0xE000 ≤ unit ∧ unit < 0x10000))) :
    ∃ low rest more, units = low :: rest ∧ unit < 0xDC00 ∧ (0xDC00 ≤ low ∧ low < 0xE000) ∧
      Identifier.ofUnits16 rest = some more ∧ said = pairChar unit low :: more := by
  rw [Identifier.ofUnits16.eq_def] at h
  simp only [if_neg hsurrogate] at h
  cases units with
  | nil => cases h
  | cons low rest =>
      simp only at h
      split at h
      · rename_i hpair
        obtain ⟨more, hmore, rfl⟩ := Option.map_eq_some_iff.mp h
        exact ⟨low, rest, more, rfl, hpair.1, hpair.2, hmore, rfl⟩
      · cases h

/-- A string is read as what its units stand for, up to behind its closing quote. -/
theorem readStringOnto_pieces (pieces : List Piece) {said : List Char} (seen rest : List UInt8)
    (hsaid : Identifier.ofUnits16 (pieces.flatMap Piece.units) = some said) :
    readStringOnto seen (utf8 (pieces.flatMap Piece.chars) ++ byte '"' :: rest) =
      .ok (seen.reverse ++ utf8 said, rest) := by
  match pieces, hsaid with
  | [], hsaid =>
      cases hsaid
      rw [List.flatMap_nil, utf8_nil, List.append_nil]
      exact readStringOnto_of_end rfl
  | .plain c :: pieces, hsaid =>
      rw [List.flatMap_cons, Piece.units, Identifier.ofUnits16_append] at hsaid
      obtain ⟨more, hmore, rfl⟩ := Option.map_eq_some_iff.mp hsaid
      rw [List.flatMap_cons, utf8_append, List.append_assoc, readStringOnto_plain,
        readStringOnto_pieces pieces _ rest hmore]
      simp [utf8_cons]
  | .escape e :: pieces, hsaid =>
      rw [List.flatMap_cons, Piece.units, Identifier.ofUnits16_append] at hsaid
      obtain ⟨more, hmore, rfl⟩ := Option.map_eq_some_iff.mp hsaid
      rw [List.flatMap_cons, utf8_append, List.append_assoc, readStringOnto_escape,
        readStringOnto_pieces pieces _ rest hmore]
      simp [utf8_cons]
  | .unicode a b c d :: pieces, hsaid =>
      have hlt := unitOf_lt a b c d
      rw [List.flatMap_cons, Piece.units, List.singleton_append] at hsaid
      by_cases hwhole : unitOf a b c d < 0xD800 ∨
          (0xE000 ≤ unitOf a b c d ∧ unitOf a b c d < 0x10000)
      · rw [Identifier.ofUnits16.eq_def] at hsaid
        simp only [if_pos hwhole] at hsaid
        obtain ⟨more, hmore, rfl⟩ := Option.map_eq_some_iff.mp hsaid
        rw [List.flatMap_cons, utf8_append, List.append_assoc,
          readStringOnto_unicode (by omega), readStringOnto_pieces pieces _ rest hmore]
        simp [utf8_cons]
      · -- The next piece is an escape of the second half.
        obtain ⟨low, units, more, hunits, hhigh, hlow, hmore, rfl⟩ :=
          ofUnits16_surrogate hsaid hwhole
        obtain ⟨a', b', c', d', after, hpieces, rfl, rfl⟩ := unicode_of_trailing hunits hlow
        rw [hpieces, List.flatMap_cons, List.flatMap_cons, utf8_append, utf8_append,
          List.append_assoc, List.append_assoc, readStringOnto_pair (by omega) hlow,
          readStringOnto_pieces after _ rest hmore]
        simp [utf8_cons]
termination_by pieces.length
decreasing_by
  · exact Nat.lt_succ_self _
  · exact Nat.lt_succ_self _
  · exact Nat.lt_succ_self _
  · rw [hpieces, List.length_cons, List.length_cons]
    omega

/-- A string that says something is read as that. -/
theorem readString_pieces {pieces : List Piece} {said : String} (h : said? pieces = some said)
    (rest : List UInt8) :
    readString (utf8 (pieces.flatMap Piece.chars) ++ byte '"' :: rest) =
      .ok (bytesOf said, rest) := by
  obtain ⟨chars, hchars, rfl⟩ := Option.map_eq_some_iff.mp h
  rw [bytesOf_ofList]
  exact readStringOnto_pieces pieces [] rest hchars

end Decompiled.Json.Grammar
