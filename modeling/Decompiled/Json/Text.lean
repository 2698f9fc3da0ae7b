import Decompiled.Json.Fault

/-!
# Words and strings of JSON text

A string is read character by character from behind its opening quote. Where
its text matters, escapes are resolved and surrogates must come in pairs; where
a string is only passed over, the form of its escapes is checked and no more.

* `length_readStep_lt`, `length_skipStep_lt`: each character uses up text, so
  reading a string ends.
* `length_readString_lt`, `length_skipString_lt`: so does a whole string.
-/

namespace Decompiled.Json

/-- Read the given bytes, one after the other. -/
def readWord : List UInt8 → List UInt8 → Except Fault (List UInt8)
  | [], text => .ok text
  | _ :: _, [] => .error (.here .endInValue [])
  | b :: word, c :: text =>
      if c = b then readWord word text else .error (.here .expectedWord text)

/-! ## Escapes -/

/-- The byte that a backslash and a letter stand for. -/
def simpleEscape? (b : UInt8) : Option UInt8 :=
  if b = byte '"' then some (byte '"')
  else if b = byte '\\' then some (byte '\\')
  else if b = byte '/' then some (byte '/')
  else if b = byte 'b' then some 0x08
  else if b = byte 'f' then some 0x0C
  else if b = byte 'n' then some (byte '\n')
  else if b = byte 'r' then some (byte '\r')
  else if b = byte 't' then some (byte '\t')
  else none

/-- Read four hexadecimal digits. Without four bytes the text is used up. -/
def readHex : List UInt8 → Except Fault (Nat × List UInt8)
  | a :: b :: c :: d :: text =>
      match hexValue? a, hexValue? b, hexValue? c, hexValue? d with
      | some a, some b, some c, some d => .ok (((a * 16 + b) * 16 + c) * 16 + d, text)
      | _, _, _, _ => .error (.here .invalidEscape text)
  | _ => .error (.here .endInString [])

/-- Read the given byte inside a surrogate pair; any other is used up. -/
def readInPair (b : UInt8) : List UInt8 → Except Fault (List UInt8)
  | [] => .error (.here .endInString [])
  | c :: text => if c = b then .ok text else .error (.here .endOfHexEscape text)

/-- Whether a UTF-16 unit is the first half of a pair. -/
def isLeading (unit : Nat) : Bool := 0xD800 ≤ unit && unit ≤ 0xDBFF

/-- Whether a UTF-16 unit is the second half of a pair. -/
def isTrailing (unit : Nat) : Bool := 0xDC00 ≤ unit && unit ≤ 0xDFFF

/-- The character of two halves. -/
def pairChar (leading trailing : Nat) : Char :=
  Char.ofNat (0x10000 + (leading - 0xD800) * 0x400 + (trailing - 0xDC00))

/-- Read what follows the first half of a pair: an escape of the second. -/
def readTrailing (leading : Nat) (text : List UInt8) :
    Except Fault (Char × List UInt8) := do
  let text ← readInPair (byte '\\') text
  let text ← readInPair (byte 'u') text
  let (trailing, text) ← readHex text
  if isTrailing trailing then .ok (pairChar leading trailing, text)
  else .error (.here .loneSurrogate text)

/-- Read the digits of an escaped character, and the second half if it needs
one. -/
def readUnicode (text : List UInt8) : Except Fault (Char × List UInt8) := do
  let (unit, text) ← readHex text
  if isTrailing unit then .error (.here .loneSurrogate text)
  else if isLeading unit then readTrailing unit text
  else .ok (Char.ofNat unit, text)

/-- Read what follows a backslash. -/
def readEscape : List UInt8 → Except Fault (List UInt8 × List UInt8)
  | [] => .error (.here .endInString [])
  | b :: text =>
      if b = byte 'u' then do
        let (c, text) ← readUnicode text
        .ok (String.utf8EncodeChar c, text)
      else
        match simpleEscape? b with
        | some b => .ok ([b], text)
        | none => .error (.here .invalidEscape text)

/-- Pass over what follows a backslash. -/
def skipEscape : List UInt8 → Except Fault (List UInt8)
  | [] => .error (.here .endInString [])
  | b :: text =>
      if b = byte 'u' then do
        let (_, text) ← readHex text
        .ok text
      else if (simpleEscape? b).isSome then .ok text
      else .error (.here .invalidEscape text)

/-! ## Strings -/

/-- Whether a byte is a control character. -/
def isControl (b : UInt8) : Bool := b < 0x20

/-- Read a byte of a string, or an escape. Answers with the bytes it stands
for, or with nothing at the closing quote. -/
def readStep : List UInt8 → Except Fault (Option (List UInt8) × List UInt8)
  | [] => .error (.here .endInString [])
  | b :: text =>
      if b = byte '"' then .ok (none, text)
      else if b = byte '\\' then do
        let (piece, text) ← readEscape text
        .ok (some piece, text)
      else if isControl b then .error (.here .controlCharacter text)
      else .ok (some [b], text)

/-- Pass over a byte of a string, or an escape. Answers whether that was the
closing quote. -/
def skipStep : List UInt8 → Except Fault (Bool × List UInt8)
  | [] => .error (.here .endInString [])
  | b :: text =>
      if b = byte '"' then .ok (true, text)
      else if b = byte '\\' then do
        let text ← skipEscape text
        .ok (false, text)
      else if isControl b then .error (.here .controlCharacter (b :: text))
      else .ok (false, text)

/-! ## Every step uses up text -/

theorem bind_eq_ok {α β : Type} {x : Except Fault α} {f : α → Except Fault β} {b : β} :
    (x >>= f) = .ok b ↔ ∃ a, x = .ok a ∧ f a = .ok b := by
  rcases x with _ | _ <;> simp [bind, Except.bind]

theorem length_readWord_le {word text rest : List UInt8}
    (h : readWord word text = .ok rest) : rest.length ≤ text.length := by
  induction word generalizing text with
  | nil =>
      simp only [readWord, Except.ok.injEq] at h
      simp [h]
  | cons b word ih =>
      rcases text with _ | ⟨c, text⟩
      · simp [readWord] at h
      · simp only [readWord] at h
        split at h
        · have := ih h
          simp
          omega
        · simp at h

theorem length_readHex_lt {text rest : List UInt8} {unit : Nat}
    (h : readHex text = .ok (unit, rest)) : rest.length < text.length := by
  unfold readHex at h
  split at h
  · split at h
    · simp only [Except.ok.injEq, Prod.mk.injEq] at h
      simp [← h.2]
      omega
    · simp at h
  · simp at h

theorem length_readInPair_lt {b : UInt8} {text rest : List UInt8}
    (h : readInPair b text = .ok rest) : rest.length < text.length := by
  unfold readInPair at h
  split at h
  · simp at h
  · split at h
    · simp only [Except.ok.injEq] at h
      simp [h]
    · simp at h

theorem length_readTrailing_lt {leading : Nat} {text rest : List UInt8} {c : Char}
    (h : readTrailing leading text = .ok (c, rest)) : rest.length < text.length := by
  simp only [readTrailing, bind_eq_ok] at h
  obtain ⟨t₁, h₁, t₂, h₂, ⟨trailing, t₃⟩, h₃, h₄⟩ := h
  have l₁ := length_readInPair_lt h₁
  have l₂ := length_readInPair_lt h₂
  have l₃ := length_readHex_lt h₃
  split at h₄
  · simp only [Except.ok.injEq, Prod.mk.injEq] at h₄
    rw [← h₄.2]
    omega
  · simp at h₄

theorem length_readUnicode_lt {text rest : List UInt8} {c : Char}
    (h : readUnicode text = .ok (c, rest)) : rest.length < text.length := by
  simp only [readUnicode, bind_eq_ok] at h
  obtain ⟨⟨unit, t₁⟩, h₁, h₂⟩ := h
  have l₁ := length_readHex_lt h₁
  split at h₂
  · simp at h₂
  · split at h₂
    · have l₂ := length_readTrailing_lt h₂
      simp only at l₂
      omega
    · simp only [Except.ok.injEq, Prod.mk.injEq] at h₂
      rw [← h₂.2]
      exact l₁

theorem length_readEscape_lt {text rest piece : List UInt8}
    (h : readEscape text = .ok (piece, rest)) : rest.length < text.length := by
  unfold readEscape at h
  split at h
  · simp at h
  · rename_i b text
    split at h
    · simp only [bind_eq_ok, Except.ok.injEq, Prod.mk.injEq] at h
      obtain ⟨⟨c, t⟩, h₁, -, rfl⟩ := h
      have := length_readUnicode_lt h₁
      simp only [List.length_cons]
      omega
    · split at h
      · simp only [Except.ok.injEq, Prod.mk.injEq] at h
        simp [h.2]
      · simp at h

theorem length_skipEscape_lt {text rest : List UInt8}
    (h : skipEscape text = .ok rest) : rest.length < text.length := by
  unfold skipEscape at h
  split at h
  · simp at h
  · rename_i b text
    split at h
    · simp only [bind_eq_ok, Except.ok.injEq] at h
      obtain ⟨⟨unit, t⟩, h₁, rfl⟩ := h
      have := length_readHex_lt h₁
      simp only [List.length_cons]
      omega
    · split at h
      · simp only [Except.ok.injEq] at h
        simp [h]
      · simp at h

/-- Each character of a string uses up text. -/
theorem length_readStep_lt {text rest : List UInt8} {piece : Option (List UInt8)}
    (h : readStep text = .ok (piece, rest)) : rest.length < text.length := by
  unfold readStep at h
  split at h
  · simp at h
  · rename_i b text
    split at h
    · simp only [Except.ok.injEq, Prod.mk.injEq] at h
      simp [h.2]
    · split at h
      · simp only [bind_eq_ok, Except.ok.injEq, Prod.mk.injEq] at h
        obtain ⟨⟨p, t⟩, h₁, -, rfl⟩ := h
        have := length_readEscape_lt h₁
        simp only [List.length_cons]
        omega
      · split at h
        · simp at h
        · simp only [Except.ok.injEq, Prod.mk.injEq] at h
          simp [h.2]

/-- So does each character of a string that is passed over. -/
theorem length_skipStep_lt {text rest : List UInt8} {closed : Bool}
    (h : skipStep text = .ok (closed, rest)) : rest.length < text.length := by
  unfold skipStep at h
  split at h
  · simp at h
  · rename_i b text
    split at h
    · simp only [Except.ok.injEq, Prod.mk.injEq] at h
      simp [h.2]
    · split at h
      · simp only [bind_eq_ok, Except.ok.injEq, Prod.mk.injEq] at h
        obtain ⟨t, h₁, -, rfl⟩ := h
        have := length_skipEscape_lt h₁
        simp only [List.length_cons]
        omega
      · split at h
        · simp at h
        · simp only [Except.ok.injEq, Prod.mk.injEq] at h
          simp [h.2]

/-- Read a string from behind its opening quote to behind its closing one.
`seen` holds the bytes read so far, the latest first. -/
def readStringOnto (seen : List UInt8) (text : List UInt8) :
    Except Fault (List UInt8 × List UInt8) :=
  match _h : readStep text with
  | .error fault => .error fault
  | .ok (none, rest) => .ok (seen.reverse, rest)
  | .ok (some piece, rest) => readStringOnto (piece.reverse ++ seen) rest
termination_by text.length
decreasing_by exact length_readStep_lt _h

/-- Read a string from behind its opening quote. -/
def readString (text : List UInt8) : Except Fault (List UInt8 × List UInt8) :=
  readStringOnto [] text

/-- Pass over a string from behind its opening quote. -/
def skipString (text : List UInt8) : Except Fault (List UInt8) :=
  match _h : skipStep text with
  | .error fault => .error fault
  | .ok (true, rest) => .ok rest
  | .ok (false, rest) => skipString rest
termination_by text.length
decreasing_by exact length_skipStep_lt _h

theorem length_readStringOnto_lt {seen text rest contents : List UInt8}
    (h : readStringOnto seen text = .ok (contents, rest)) : rest.length < text.length := by
  fun_induction readStringOnto seen text with
  | case1 => simp at h
  | case2 seen text rest' hstep =>
      simp only [Except.ok.injEq, Prod.mk.injEq] at h
      rw [← h.2]
      exact length_readStep_lt hstep
  | case3 seen text piece rest' hstep ih =>
      have := ih h
      have := length_readStep_lt hstep
      omega

/-- Reading a string uses up text. -/
theorem length_readString_lt {text rest contents : List UInt8}
    (h : readString text = .ok (contents, rest)) : rest.length < text.length :=
  length_readStringOnto_lt h

/-- So does passing over one. -/
theorem length_skipString_lt {text rest : List UInt8}
    (h : skipString text = .ok rest) : rest.length < text.length := by
  fun_induction skipString text with
  | case1 => simp at h
  | case2 text rest' hstep =>
      simp only [Except.ok.injEq] at h
      rw [← h]
      exact length_skipStep_lt hstep
  | case3 text rest' hstep ih =>
      have := ih h
      have := length_skipStep_lt hstep
      omega

/-- The text of bytes that a string stood for. -/
def textOf (bytes : List UInt8) : String :=
  (String.fromUTF8? ⟨bytes.toArray⟩).getD ""

end Decompiled.Json
