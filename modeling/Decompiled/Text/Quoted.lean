import Decompiled.Text.Invisible

/-!
# Quoted text

Text in double quotes, as it is shown to a reader of messages: a quote and a
backslash get a backslash in front, and characters that show nothing of their
own are written by a letter or by their number.

* `quote_of_plain`: text of plain characters alone stands between the quotes as
  it is.
-/

namespace Decompiled.Text

/-- The hexadecimal digits of a number, in lower case. -/
def hexText (n : Nat) : List Char := Nat.toDigits 16 n

/-- What stands for a character between quotes. -/
def quoteChar (c : Char) : List Char :=
  if c = '"' then ['\\', '"']
  else if c = '\\' then ['\\', '\\']
  else if c = '\n' then ['\\', 'n']
  else if c = '\t' then ['\\', 't']
  else if c = '\r' then ['\\', 'r']
  else if c = '\x00' then ['\\', '0']
  else if isInvisible c then ['\\', 'u', '\x7b'] ++ hexText c.toNat ++ ['\x7d']
  else [c]

/-- Text in quotes. -/
def quote (text : String) : String :=
  String.ofList ('"' :: text.toList.flatMap quoteChar ++ ['"'])

/-- Texts in quotes, in brackets and with commas between them. -/
def quoteList (texts : List String) : String :=
  "[" ++ ", ".intercalate (texts.map quote) ++ "]"

/-- Text of plain characters alone stands between the quotes as it is. -/
theorem quote_of_plain {text : String} (h : ∀ c ∈ text.toList, quoteChar c = [c]) :
    quote text = String.ofList ('"' :: text.toList ++ ['"']) := by
  have key : ∀ cs : List Char, (∀ c ∈ cs, quoteChar c = [c]) →
      cs.flatMap quoteChar = cs := by
    intro cs
    induction cs with
    | nil => intro _; rfl
    | cons c rest ih =>
        intro hcs
        rw [List.flatMap_cons, hcs c (by simp), ih (fun d hd => hcs d (by simp [hd]))]
        rfl
  rw [quote, key _ h]

end Decompiled.Text
