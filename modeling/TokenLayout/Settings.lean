import TokenLayout.Fault

/-!
# Layout settings

How a layout is written: the width of a level and the line terminator, and the thresholds
above which a group of tokens goes on several lines. `Settings.ofFields` makes settings from
named values and reports the first thing wrong with them, `Settings.ofDict` does so for a
dictionary that may hold other names too.
-/

namespace TokenLayout

/-- A group longer than `maxLength` or with more than `maxChildren` parts goes on several
lines. -/
structure Thresholds where
  maxLength : Nat := 90
  maxChildren : Nat := 5
deriving DecidableEq, Repr

/-- Layout settings. -/
structure Settings extends Thresholds where
  /-- Spaces per level. -/
  indentWidth : Nat := 3
  /-- What ends a line. -/
  newline : String := "\r\n"
deriving DecidableEq, Repr

/-- Values by field name, in the order given. -/
abbrev Fields := List (String × Datum)

namespace Settings

/-! ## Line terminators -/

/-- The characters a line terminator is made of. -/
def isLineEnd (c : Char) : Bool :=
  c == '\r' || c == '\n'

/-- A text without the line ends at its two ends. -/
def trimLineEnds (cs : List Char) : List Char :=
  ((cs.dropWhile isLineEnd).reverse.dropWhile isLineEnd).reverse

/-- A line terminator is a text that is not empty and has nothing but line ends. -/
def terminator : Datum → Except Fault String
  | .text s =>
    if s.isEmpty || !(trimLineEnds s.toList).isEmpty then .error (.badTerminator (.text s))
    else .ok s
  | value => if value.isVoid then .error (.badTerminator value)
    else .error (.noAttribute value.kind "strip")

/-! ## Making settings -/

/-- A number of the settings is an integer that is not negative. -/
def natural (field : SettingsField) : Datum → Except Fault Nat
  | .int n => if n < 0 then .error (.negativeSetting field n) else .ok n.toNat
  | value => .error (.notInteger value.kind)

/-- The value of a field in some settings. -/
def get (settings : Settings) : SettingsField → Datum
  | .indentWidth => .int settings.indentWidth
  | .newline => .text settings.newline
  | .maxLength => .int settings.maxLength
  | .maxChildren => .int settings.maxChildren

/-- The value given for a field, or its default. -/
def given (fields : Fields) (field : SettingsField) : Datum :=
  (fields.lookup field.name).getD (get {} field)

/-- The first name that is not that of a field. -/
def unknownName? (fields : Fields) : Option String :=
  (fields.find? fun (name, _) => (SettingsField.ofName? name).isNone).map Prod.fst

/-- Settings from values by name. A name that no field has is reported before any value, and
the terminator after the numbers. -/
def ofFields (fields : Fields) : Except Fault Settings :=
  match unknownName? fields with
  | some name => .error (.unknownSetting name)
  | none => do
    let indentWidth ← natural .indentWidth (given fields .indentWidth)
    let maxLength ← natural .maxLength (given fields .maxLength)
    let maxChildren ← natural .maxChildren (given fields .maxChildren)
    let newline ← terminator (given fields .newline)
    return { indentWidth, newline, maxLength, maxChildren }

/-- Settings from a dictionary, of which only the fields' names are read. -/
def ofDict (dict : Fields) : Except Fault Settings :=
  ofFields (dict.filter fun (name, _) => (SettingsField.ofName? name).isSome)

/-- Settings are not made from a value that is no dictionary. -/
def ofStray (value : Datum) : Except Fault Settings :=
  .error (.noAttribute value.kind "items")

/-- Whether settings are the default ones. -/
def isDefault (settings : Settings) : Bool :=
  settings = {}

/-- Settings in words. -/
def shown (settings : Settings) : String :=
  "LayoutConfig(indent_width=" ++ toString settings.indentWidth ++
    ", newline=" ++ Text.quote settings.newline ++
    ", max_line_length=" ++ toString settings.maxLength ++
    ", max_children=" ++ toString settings.maxChildren ++ ")"

/-- Settings do not change, so giving a new value to a field of any name is a fault. -/
def assign (_settings : Settings) (name : String) : Except Fault Settings :=
  .error (.frozen name)

end Settings

end TokenLayout
