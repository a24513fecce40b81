import TokenLayout.Datum

/-!
# Faults

Why an operation stopped. `Fault` lists the causes, and `Fault.message` is the one place where
they are put into words. Faults of the layout's own contracts belong to one of the error
families of `Family`, whose members can also be made from free texts (`Notice`).
-/

namespace TokenLayout

/-! ## Error families -/

/-- The families of layout errors. All of them are errors of the general one. -/
inductive Family where
  | general
  | contract
  | render
  | settings
deriving DecidableEq, Repr

namespace Family

/-- The name of an error family. -/
def name : Family → String
  | general => "SangriaError"
  | contract => "TokenContractError"
  | render => "RenderError"
  | settings => "ConfigError"

/-- The family with the families that it belongs to, nearest first. -/
def lineage : Family → List Family
  | general => [general]
  | family => [family, general]

end Family

/-- A layout error made from texts: about a token contract, about a settings field, or one of
another family with any number of texts. -/
inductive Notice where
  | contract (subject detail : String)
  | settings (field detail : String)
  | general (texts : List String)
  | render (texts : List String)
deriving DecidableEq, Repr

namespace Notice

/-- The family of a layout error. -/
def family : Notice → Family
  | contract _ _ => .contract
  | settings _ _ => .settings
  | general _ => .general
  | render _ => .render

/-- No text gives the empty text, one stands for itself, and several are listed in quotes. -/
def listed : List String → String
  | [] => ""
  | [s] => s
  | ss => "(" ++ String.intercalate ", " (ss.map Text.quote) ++ ")"

/-- The text of a layout error. -/
def text : Notice → String
  | contract subject detail => subject ++ ": " ++ detail
  | settings field detail => "LayoutConfig." ++ field ++ ": " ++ detail
  | general texts => listed texts
  | render texts => listed texts

end Notice

/-! ## Causes -/

/-- Whose contract was broken: that of a token of some kind, or that of rendering. -/
inductive Subject where
  | token (kind : Kind)
  | renderer
deriving DecidableEq, Repr

/-- The name of the party whose contract was broken. -/
def Subject.name : Subject → String
  | token kind => kind.name
  | renderer => "TextRenderer"

/-- How a token contract was broken. -/
inductive Breach where
  | negativeInset (got : Int)
  | textExpected (got : ValueKind)
  | partExpected (got : ValueKind)
  | measured
  | bodyMissing
  | bodyExpected (got : ValueKind)
  | bracketsExpected
  | rootExpected (got : ValueKind)
deriving DecidableEq, Repr

/-- A broken contract in words. -/
def Breach.detail : Breach → String
  | negativeInset got => "split_indent must be >= 0, got " ++ toString got
  | textExpected got => "text must be str, got " ++ got.name
  | partExpected got => "children must be tokens, got " ++ got.name
  | measured => "cannot add children after the token has been measured"
  | bodyMissing => "body is required"
  | bodyExpected got => "body must be a token, got " ++ got.name
  | bracketsExpected => "brackets must be strings"
  | rootExpected got => "cannot render " ++ got.name ++ ", expected a token"

/-- The fields of the layout settings. -/
inductive SettingsField where
  | indentWidth
  | newline
  | maxLength
  | maxChildren
deriving DecidableEq, Repr

namespace SettingsField

/-- All fields, in the order in which settings are shown. -/
def all : List SettingsField :=
  [indentWidth, newline, maxLength, maxChildren]

/-- The name of a settings field. -/
def name : SettingsField → String
  | indentWidth => "indent_width"
  | newline => "newline"
  | maxLength => "max_line_length"
  | maxChildren => "max_children"

/-- The field of a given name. -/
def ofName? (name : String) : Option SettingsField :=
  all.find? (·.name == name)

end SettingsField

/-- Why an operation stopped. -/
inductive Fault where
  /-- A token contract was broken. -/
  | contract (subject : Subject) (breach : Breach)
  /-- Something that is no token of a known kind was to be written. -/
  | unwritable (got : ValueKind)
  /-- A line was to start left of the margin. -/
  | negativeLevel (level : Int)
  /-- A number of the settings is negative. -/
  | negativeSetting (field : SettingsField) (got : Int)
  /-- The line terminator of the settings is not one. -/
  | badTerminator (got : Datum)
  /-- A blank token was to be measured. -/
  | unmeasurable
  /-- A value that is no number was to be compared with zero. -/
  | unordered (got : ValueKind)
  /-- What comes of a value of this kind, in this place, is left open. -/
  | uncovered (got : ValueKind)
  /-- The items of a value that has none were asked for. -/
  | notIterable (got : ValueKind)
  /-- The items of a value that has none were to be handed over one by one. -/
  | notSpread (got : ValueKind)
  /-- Two values cannot be joined end to end. -/
  | unjoinable (left right : ValueKind)
  /-- There is no settings field of this name. -/
  | unknownSetting (name : String)
  /-- A value has no attribute of this name. -/
  | noAttribute (owner : ValueKind) (name : String)
  /-- The attribute can be read only. -/
  | readOnly (owner : Kind) (name : String)
  /-- Settings do not change. -/
  | frozen (name : String)
  /-- Nothing is bound to this name. -/
  | unboundName (name : String)
  /-- The token contains itself, so it has no tree. -/
  | endless
deriving DecidableEq, Repr

namespace Fault

/-- Why a value that is no integer is not taken for a number. Booleans and fractions have an order
too, but what comes of them is left open. -/
def notInteger : ValueKind → Fault
  | .bool => uncovered .bool
  | .real => uncovered .real
  | got => unordered got

/-- The layout error that a fault is, if it is one of the layout's own contracts. -/
def notice? : Fault → Option Notice
  | contract subject breach => some (.contract subject.name breach.detail)
  | unwritable got => some (.render ["Cannot render " ++ got.name ++ ": not a known token kind"])
  | negativeLevel level =>
    some (.render ["Cannot break to negative indent level " ++ toString level])
  | negativeSetting field got =>
    some (.settings field.name ("must be >= 0, got " ++ toString got))
  | badTerminator got =>
    some (.settings SettingsField.newline.name
      ("must be a non-empty line terminator, got " ++ got.shown))
  | _ => none

/-- The wording of faults that are not layout errors. -/
def remark : Fault → String
  | unordered got =>
    "'<' not supported between instances of '" ++ got.name ++ "' and 'int'"
  | uncovered got => "no account of '" ++ got.name ++ "' here"
  | notIterable got => "'" ++ got.name ++ "' object is not iterable"
  | notSpread got => "Value after * must be an iterable, not " ++ got.name
  | unjoinable .text right => "can only concatenate str (not \"" ++ right.name ++ "\") to str"
  | unjoinable .list right => "can only concatenate list (not \"" ++ right.name ++ "\") to list"
  | unjoinable left right =>
    "unsupported operand type(s) for +: '" ++ left.name ++ "' and '" ++ right.name ++ "'"
  | unknownSetting name =>
    "LayoutConfig.__init__() got an unexpected keyword argument '" ++ name ++ "'"
  | noAttribute owner name => "'" ++ owner.name ++ "' object has no attribute '" ++ name ++ "'"
  | readOnly owner name =>
    "property '" ++ name ++ "' of '" ++ owner.name ++ "' object has no setter"
  | frozen name => "cannot assign to field '" ++ name ++ "'"
  | unboundName name => name
  | endless => "maximum recursion depth exceeded"
  | _ => ""

/-- A fault in words. -/
def message (fault : Fault) : String :=
  match fault.notice? with
  | some notice => notice.text
  | none => fault.remark

end Fault

end TokenLayout
