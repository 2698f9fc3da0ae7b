import Decompiled.Json.Skip
import Decompiled.Settings.Basic

/-!
# Reading settings

Settings are read from a JSON object by name, or from a list in the order they
are declared. A setting that is missing is off; it must not be there twice, and
its value must be true or false. Members of other names are passed over.

* `Settings.read`: the settings that a text holds, or what is wrong with it.
-/

namespace Decompiled.Settings

open Json

/-- Settings of which some have been given. -/
structure Given where
  exportFullProject : Option Bool
  escapeInvalidIdentifiers : Option Bool
  deriving DecidableEq

namespace Given

/-- No setting has been given. -/
def empty : Given := ⟨none, none⟩

/-- The value of a setting that has been given. -/
def get? (given : Given) : Field → Option Bool
  | .exportFullProject => given.exportFullProject
  | .escapeInvalidIdentifiers => given.escapeInvalidIdentifiers

/-- Give a setting. -/
def set (given : Given) (field : Field) (value : Bool) : Given :=
  match field with
  | .exportFullProject => { given with exportFullProject := some value }
  | .escapeInvalidIdentifiers => { given with escapeInvalidIdentifiers := some value }

/-- The settings, with those that have not been given as by default. -/
def settings (given : Given) : Settings where
  exportFullProject := given.exportFullProject.getD default.exportFullProject
  escapeInvalidIdentifiers :=
    given.escapeInvalidIdentifiers.getD default.escapeInvalidIdentifiers

end Given

/-- The setting that a key names. -/
def Field.ofKey? (key : List UInt8) : Option Field :=
  Field.all.find? fun field => bytesOf field.name == key

/-! ## Values -/

/-- A fault for a value that is not of the type asked for, given what is left
behind it. -/
def mismatch {α : Type} (expected : String) (found : Found) (text : List UInt8) :
    Except Fault α :=
  .error (.here (.invalidType found expected) text)

/-- Read a value that is not of the type asked for. A list or an object is seen
by its first byte. -/
def readMismatch {α : Type} (expected : String) : List UInt8 → Except Fault α
  | [] => .error (.beyond .expectedValue [])
  | b :: rest =>
      if b = byte 'n' then do
        let rest ← readWord (bytesOf "ull") rest
        mismatch expected .null rest
      else if b = byte 't' then do
        let rest ← readWord (bytesOf "rue") rest
        mismatch expected (.boolean true) rest
      else if b = byte 'f' then do
        let rest ← readWord (bytesOf "alse") rest
        mismatch expected (.boolean false) rest
      else if b = byte '-' || isDigit b then do
        let (found, rest) ← readNumber (b :: rest)
        mismatch expected found rest
      else if b = byte '"' then do
        let (contents, rest) ← readString rest
        mismatch expected (.string (textOf contents)) rest
      else if b = byte '[' then mismatch expected .sequence (b :: rest)
      else if b = byte '\x7b' then mismatch expected .map (b :: rest)
      else .error (.beyond .expectedValue (b :: rest))

/-- Read a value that must be true or false. -/
def readBool (text : List UInt8) : Except Fault (Bool × List UInt8) :=
  match skipSpace text with
  | [] => .error (.beyond .endInValue [])
  | b :: rest =>
      if b = byte 't' then do
        let rest ← readWord (bytesOf "rue") rest
        .ok (true, rest)
      else if b = byte 'f' then do
        let rest ← readWord (bytesOf "alse") rest
        .ok (false, rest)
      else readMismatch "a boolean" (b :: rest)

/-! ## Objects -/

/-- Read the next key of an object, or its end. The first key follows the
opening brace, every other one a comma. -/
def readKey (first : Bool) (text : List UInt8) :
    Except Fault (Option (List UInt8) × List UInt8) :=
  let key (text : List UInt8) : Except Fault (Option (List UInt8) × List UInt8) := do
    let (contents, rest) ← readString text
    .ok (some contents, rest)
  match skipSpace text with
  | [] => .error (.beyond .endInObject [])
  | b :: rest =>
      if b = byte '\x7d' then .ok (none, rest)
      else if first then
        if b = byte '"' then key rest else .error (.beyond .expectedKey (b :: rest))
      else if b = byte ',' then
        match skipSpace rest with
        | [] => .error (.beyond .endInValue [])
        | c :: rest =>
            if c = byte '"' then key rest
            else if c = byte '\x7d' then .error (.beyond .trailingComma (c :: rest))
            else .error (.beyond .expectedKey (c :: rest))
      else .error (.beyond .expectedObjectEnd (b :: rest))

/-- The fault of a setting given twice. It points behind the object if that ends
right after the key. -/
def duplicate {α : Type} (field : Field) (text : List UInt8) : Except Fault α :=
  let text := skipSpace text
  let text := if text.head? = some (byte '\x7d') then text.tail else text
  .error (.here (.duplicateField field.name) text)

/-- Read what follows a key: its colon and its value. -/
def readMember (given : Given) (key text : List UInt8) :
    Except Fault (Given × List UInt8) :=
  match Field.ofKey? key with
  | some field =>
      if (given.get? field).isSome then duplicate field text
      else do
        let rest ← readColon text
        let (value, rest) ← readBool rest
        .ok (given.set field value, rest)
  | none => do
      let rest ← readColon text
      let rest ← skipValue rest
      .ok (given, rest)

theorem length_readBool_lt {text rest : List UInt8} {value : Bool}
    (h : readBool text = .ok (value, rest)) : rest.length < text.length := by
  have hspace := length_skipSpace_le text
  unfold readBool at h
  split at h
  · simp at h
  · rename_i b t heq
    rw [heq] at hspace
    simp only [List.length_cons] at hspace
    split at h
    · simp only [bind_eq_ok, Except.ok.injEq, Prod.mk.injEq] at h
      obtain ⟨t', hword, -, rfl⟩ := h
      have := length_readWord_le hword
      omega
    · split at h
      · simp only [bind_eq_ok, Except.ok.injEq, Prod.mk.injEq] at h
        obtain ⟨t', hword, -, rfl⟩ := h
        have := length_readWord_le hword
        omega
      · exact absurd h (by
          simp only [readMismatch, mismatch]
          repeat' split
          all_goals simp [bind_eq_ok])

theorem length_readKey_lt {first : Bool} {text rest : List UInt8}
    {key : Option (List UInt8)} (h : readKey first text = .ok (key, rest)) :
    rest.length < text.length := by
  have hspace := length_skipSpace_le text
  unfold readKey at h
  simp only at h
  split at h
  · simp at h
  · rename_i b t heq
    rw [heq] at hspace
    simp only [List.length_cons] at hspace
    split at h
    · simp only [Except.ok.injEq, Prod.mk.injEq] at h
      simp only [← h.2]
      omega
    · split at h
      · split at h
        · simp only [bind_eq_ok, Except.ok.injEq, Prod.mk.injEq] at h
          obtain ⟨⟨c, r⟩, hstring, -, rfl⟩ := h
          have := length_readString_lt hstring
          simp only
          omega
        · simp at h
      · split at h
        · have hspace' := length_skipSpace_le t
          split at h
          · simp at h
          · rename_i c r heq'
            rw [heq'] at hspace'
            simp only [List.length_cons] at hspace'
            split at h
            · simp only [bind_eq_ok, Except.ok.injEq, Prod.mk.injEq] at h
              obtain ⟨⟨c, r⟩, hstring, -, rfl⟩ := h
              have := length_readString_lt hstring
              simp only
              omega
            · split at h <;> simp at h
        · simp at h

theorem length_readMember_lt {given after : Given} {key text rest : List UInt8}
    (h : readMember given key text = .ok (after, rest)) : rest.length < text.length := by
  unfold readMember at h
  split at h
  · split at h
    · simp [duplicate] at h
    · simp only [bind_eq_ok, Except.ok.injEq, Prod.mk.injEq] at h
      obtain ⟨t, hcolon, ⟨value, t'⟩, hbool, -, rfl⟩ := h
      have := length_readColon_lt hcolon
      have := length_readBool_lt hbool
      simp only
      omega
  · simp only [bind_eq_ok, Except.ok.injEq, Prod.mk.injEq] at h
    obtain ⟨t, hcolon, t', hskip, -, rfl⟩ := h
    have := length_readColon_lt hcolon
    have := length_skipValue_lt hskip
    omega

/-- Read the members of an object from behind its opening brace, or from behind
a member, to behind its closing brace. -/
def readMembers (given : Given) (first : Bool) (text : List UInt8) :
    Except Fault (Given × List UInt8) :=
  match _hkey : readKey first text with
  | .error fault => .error fault
  | .ok (none, rest) => .ok (given, rest)
  | .ok (some key, rest) =>
      match _hmember : readMember given key rest with
      | .error fault => .error fault
      | .ok (given, rest) => readMembers given false rest
termination_by text.length
decreasing_by
  have := length_readKey_lt _hkey
  have := length_readMember_lt _hmember
  omega

/-! ## Lists -/

/-- Read the next value of a list, or nothing before its end, which stays. The
first value follows the opening bracket, every other one a comma. -/
def readElement (first : Bool) (text : List UInt8) :
    Except Fault (Option Bool × List UInt8) :=
  let element (text : List UInt8) : Except Fault (Option Bool × List UInt8) := do
    let (value, rest) ← readBool text
    .ok (some value, rest)
  match skipSpace text with
  | [] => .error (.beyond .endInList [])
  | b :: rest =>
      if b = byte ']' then .ok (none, b :: rest)
      else if first then element (b :: rest)
      else if b = byte ',' then
        match skipSpace rest with
        | [] => .error (.beyond .endInValue [])
        | c :: rest =>
            if c = byte ']' then .error (.beyond .trailingComma (c :: rest))
            else element (c :: rest)
      else .error (.beyond .expectedListEnd (b :: rest))

/-- Read the end of a list of which no more is wanted. -/
def readListEnd (text : List UInt8) : Except Fault (List UInt8) :=
  match skipSpace text with
  | [] => .error (.beyond .endInList [])
  | b :: rest =>
      if b = byte ']' then .ok rest
      else if b = byte ',' then
        let rest := skipSpace rest
        if rest.head? = some (byte ']') then .error (.beyond .trailingComma rest)
        else .error (.beyond .trailingCharacters rest)
      else .error (.beyond .trailingCharacters (b :: rest))

/-- Read settings from behind the opening bracket of a list. -/
def readElements (text : List UInt8) : Except Fault (Given × List UInt8) := do
  let (exportFullProject, text) ← readElement true text
  let (escapeInvalidIdentifiers, text) ← readElement exportFullProject.isNone text
  let text ← readListEnd text
  .ok (⟨exportFullProject, escapeInvalidIdentifiers⟩, text)

/-! ## Texts -/

/-- Read an object or a list with settings. -/
def readGiven (text : List UInt8) : Except Fault (Given × List UInt8) :=
  match skipSpace text with
  | [] => .error (.beyond .endInValue [])
  | b :: rest =>
      if b = byte '\x7b' then readMembers .empty true rest
      else if b = byte '[' then readElements rest
      else readMismatch "struct TransformSettings" (b :: rest)

/-- Read settings from the bytes of a whole text. -/
def readBytes (text : List UInt8) : Except Fault Settings := do
  let (given, rest) ← readGiven text
  let rest := skipSpace rest
  if rest.isEmpty then .ok given.settings else .error (.beyond .trailingCharacters rest)

/-- The settings that a text holds, or what is wrong with it. -/
def read (text : String) : Except Fault Settings := readBytes (bytesOf text)

end Decompiled.Settings
