/-!
# Settings

What the owner of a pipeline decides by: the passes themselves do not look at
the settings. The two settings are written by name, in a fixed order.
-/

namespace Decompiled

/-- The options of whoever builds a pipeline. -/
structure Settings where
  /-- The code is exported as a project of its own, to be compiled again. -/
  exportFullProject : Bool
  /-- Identifiers that cannot be written are escaped. -/
  escapeInvalidIdentifiers : Bool
  deriving DecidableEq

namespace Settings

/-- Both are off unless they are asked for. -/
def default : Settings := ⟨false, false⟩

instance : Inhabited Settings := ⟨default⟩

/-- The names of the settings. -/
inductive Field where
  | exportFullProject
  | escapeInvalidIdentifiers
  deriving DecidableEq

/-- How a setting is written. -/
def Field.name : Field → String
  | exportFullProject => "exportFullProject"
  | escapeInvalidIdentifiers => "escapeInvalidIdentifiers"

/-- All settings, in the order they are written. -/
def Field.all : List Field := [.exportFullProject, .escapeInvalidIdentifiers]

/-- The value of a setting. -/
def get (settings : Settings) : Field → Bool
  | .exportFullProject => settings.exportFullProject
  | .escapeInvalidIdentifiers => settings.escapeInvalidIdentifiers

/-- The settings as JSON text without blanks. -/
def json (settings : Settings) : String :=
  let member (field : Field) :=
    "\"" ++ field.name ++ "\":" ++ toString (settings.get field)
  "\x7b" ++ ",".intercalate (Field.all.map member) ++ "\x7d"

end Settings

end Decompiled
