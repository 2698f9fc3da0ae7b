import Decompiled.Proofs.Identifier.Escaped

/-!
# Reading what an escape is made of

An escape writes the UTF-16 units of a character in groups, each an underscore
and four upper-case hexadecimal digits. Both steps can be read back: the digits
of a group say which unit it is, and the units say which character it was.

* `Identifier.Group`: the groups, told by what their digits say.
* `Identifier.ofUnits16`: the characters that units stand for.
* `Identifier.group_escapeUnit`, `Identifier.ofUnits16_append`: the groups and
  units of an escape are read back as what they were made of.
-/

namespace Decompiled.Identifier

variable {c w x y z : Char} {n unit : Nat}

/-! ## Characters of ASCII -/

/-- A digit of ASCII. -/
def AsciiDigit (c : Char) : Prop := '0' ≤ c ∧ c ≤ '9'

/-- A letter, a digit or the underscore of ASCII. -/
def AsciiWord (c : Char) : Prop :=
  ('a' ≤ c ∧ c ≤ 'z') ∨ ('A' ≤ c ∧ c ≤ 'Z') ∨ AsciiDigit c ∨ c = '_'

/-- An upper-case hexadecimal digit. -/
def HexDigit (c : Char) : Prop := AsciiDigit c ∨ ('A' ≤ c ∧ c ≤ 'F')

instance : DecidablePred AsciiDigit := fun _ => inferInstanceAs (Decidable (_ ∧ _))

instance : DecidablePred AsciiWord := fun _ => inferInstanceAs (Decidable (_ ∨ _))

instance : DecidablePred HexDigit := fun _ => inferInstanceAs (Decidable (_ ∨ _))

theorem asciiDigit_iff : AsciiDigit c ↔ 0x30 ≤ c.toNat ∧ c.toNat ≤ 0x39 := Iff.rfl

theorem asciiWord_iff : AsciiWord c ↔ (0x61 ≤ c.toNat ∧ c.toNat ≤ 0x7A) ∨
    (0x41 ≤ c.toNat ∧ c.toNat ≤ 0x5A) ∨ (0x30 ≤ c.toNat ∧ c.toNat ≤ 0x39) ∨ c.toNat = 0x5F := by
  have hunderscore : c = '_' ↔ c.toNat = 0x5F := Char.toNat_inj.symm
  unfold AsciiWord
  rw [hunderscore]
  exact Iff.rfl

theorem isAlpha_iff : c.isAlpha = true ↔ (0x41 ≤ c.toNat ∧ c.toNat ≤ 0x5A) ∨
    (0x61 ≤ c.toNat ∧ c.toNat ≤ 0x7A) := by
  show (decide ('A' ≤ c ∧ c ≤ 'Z') || decide ('a' ≤ c) && decide (c ≤ 'z')) = true ↔ _
  simp only [Bool.or_eq_true, Bool.and_eq_true, decide_eq_true_eq]
  exact Iff.rfl

theorem isDigit_iff : c.isDigit = true ↔ AsciiDigit c := by
  show (decide ('0' ≤ c) && decide (c ≤ '9')) = true ↔ _
  rw [Bool.and_eq_true, decide_eq_true_eq, decide_eq_true_eq]
  exact Iff.rfl

/-- The characters that may stand in an identifier. -/
theorem isWordChar_iff : isWordChar c = true ↔ AsciiWord c := by
  unfold isWordChar Char.isAlphanum
  rw [Bool.or_eq_true, Bool.or_eq_true, isAlpha_iff, isDigit_iff, beq_iff_eq, asciiDigit_iff,
    asciiWord_iff, ← Char.toNat_inj]
  change _ ∨ c.toNat = 0x5F ↔ _
  omega

/-- Of these, all but the digits may start one. -/
theorem isStartChar_iff (hword : AsciiWord c) : isStartChar c = true ↔ ¬ AsciiDigit c := by
  unfold isStartChar
  rw [asciiWord_iff] at hword
  rw [Bool.or_eq_true, isAlpha_iff, beq_iff_eq, asciiDigit_iff, ← Char.toNat_inj]
  change _ ∨ c.toNat = 0x5F ↔ _
  omega

/-! ## Groups -/

/-- The value of an upper-case hexadecimal digit. -/
def hexValue? (c : Char) : Option Nat :=
  if '0' ≤ c ∧ c ≤ '9' then some (c.toNat - '0'.toNat)
  else if 'A' ≤ c ∧ c ≤ 'F' then some (c.toNat - 'A'.toNat + 10)
  else none

/-- The number that four upper-case hexadecimal digits write. -/
def unitOf? (w x y z : Char) : Option Nat := do
  let w ← hexValue? w
  let x ← hexValue? x
  let y ← hexValue? y
  let z ← hexValue? z
  return ((w * 0x10 + x) * 0x10 + y) * 0x10 + z

/-- An underscore and four upper-case hexadecimal digits that write the unit. -/
def Group (unit : Nat) (group : List Char) : Prop :=
  ∃ w x y z, group = ['_', w, x, y, z] ∧ unitOf? w x y z = some unit

theorem isSome_hexValue?_iff : (hexValue? c).isSome ↔ HexDigit c := by
  unfold hexValue? HexDigit AsciiDigit
  split
  · simp_all
  · split <;> simp_all

theorem hexValue?_hexDigit (n : Nat) : hexValue? (hexDigit (n % 0x10)) = some (n % 0x10) := by
  have hall : ∀ digit < 0x10, hexValue? (hexDigit digit) = some digit := by decide
  exact hall (n % 0x10) (Nat.mod_lt n (by decide))

/-- Four characters write a number exactly if all of them are digits. -/
theorem isSome_unitOf?_iff : (unitOf? w x y z).isSome ↔
    HexDigit w ∧ HexDigit x ∧ HexDigit y ∧ HexDigit z := by
  simp only [← isSome_hexValue?_iff]
  unfold unitOf?
  rcases hexValue? w with _ | w
  · simp
  rcases hexValue? x with _ | x
  · simp
  rcases hexValue? y with _ | y
  · simp
  rcases hexValue? z with _ | z
  · simp
  · simp

/-- What stands for a unit is a group that writes it. -/
theorem group_escapeUnit (hunit : unit < 0x10000) : Group unit (escapeUnit unit) := by
  refine ⟨_, _, _, _, rfl, ?_⟩
  unfold unitOf?
  simp only [hexValue?_hexDigit, Option.bind_eq_bind, Option.bind_some, Option.pure_def,
    Option.some.injEq]
  omega

/-! ## UTF-16 units -/

/-- The characters that UTF-16 units stand for. Two surrogates stand for one
character; one alone, or two in the wrong order, stand for none. -/
def ofUnits16 : List Nat → Option (List Char)
  | [] => some []
  | unit :: rest =>
      if unit < 0xD800 ∨ (0xE000 ≤ unit ∧ unit < 0x10000) then
        (ofUnits16 rest).map (Char.ofNat unit :: ·)
      else
        match rest with
        | [] => none
        | low :: rest =>
            if unit < 0xDC00 ∧ 0xDC00 ≤ low ∧ low < 0xE000 then
              (ofUnits16 rest).map
                (Char.ofNat (0x10000 + (unit - 0xD800) * 0x400 + (low - 0xDC00)) :: ·)
            else none

/-- A character is no surrogate. -/
theorem toNat_bounds (c : Char) : c.toNat < 0xD800 ∨ (0xE000 ≤ c.toNat ∧ c.toNat < 0x110000) := by
  rcases c.valid with h | ⟨h, h'⟩
  · exact .inl h
  · exact .inr ⟨h, h'⟩

theorem units16_lt (hunit : unit ∈ units16 c) : unit < 0x10000 := by
  have hbounds := toNat_bounds c
  unfold units16 at hunit
  simp only at hunit
  split at hunit
  · rw [List.mem_singleton] at hunit
    omega
  · rw [List.mem_cons, List.mem_singleton] at hunit
    omega

/-- The units of a character are read back as that character. -/
theorem ofUnits16_append (c : Char) (rest : List Nat) :
    ofUnits16 (units16 c ++ rest) = (ofUnits16 rest).map (c :: ·) := by
  have hbounds := toNat_bounds c
  unfold units16
  simp only
  split
  · rename_i hsmall
    have hplain : c.toNat < 0xD800 ∨ (0xE000 ≤ c.toNat ∧ c.toNat < 0x10000) := by omega
    rw [List.singleton_append, ofUnits16.eq_def]
    simp only [if_pos hplain, Char.ofNat_toNat]
  · -- The two surrogates hold the upper and the lower ten bits.
    rename_i hlarge
    have hhigh : 0xD800 + (c.toNat - 0x10000) / 0x400 < 0xDC00 := by omega
    have hlow : 0xDC00 + (c.toNat - 0x10000) % 0x400 < 0xE000 := by omega
    have hjoin : 0x10000 + (0xD800 + (c.toNat - 0x10000) / 0x400 - 0xD800) * 0x400 +
        (0xDC00 + (c.toNat - 0x10000) % 0x400 - 0xDC00) = c.toNat := by omega
    rw [List.cons_append, List.singleton_append, ofUnits16.eq_def]
    simp only
    rw [if_neg (by omega), if_pos ⟨hhigh, by omega, hlow⟩, hjoin, Char.ofNat_toNat]

/-- So are the units of a text. -/
theorem ofUnits16_flatMap (text : List Char) : ofUnits16 (text.flatMap units16) = some text := by
  induction text with
  | nil => rfl
  | cons c rest ih => rw [List.flatMap_cons, ofUnits16_append, ih, Option.map_some]

theorem ofUnits16_units16 (c : Char) : ofUnits16 (units16 c) = some [c] := by
  rw [← List.append_nil (units16 c), ofUnits16_append]
  rfl

end Decompiled.Identifier
