import TokenLayout.Store.Measure

/-!
# Properties of tokens

The properties of a token by name. Which ones there are depends on the kind of the token.
Measurements can be read only. Giving a property a new value clears no cell of the memo, and
does nothing to other tokens.
-/

namespace TokenLayout

/-- The properties of tokens. -/
inductive Property where
  | breakable
  | inset
  | length
  | multiline
  | text
  | commas
  | opening
  | closing
  | bareSingle
  | ownLine
  | body
  | bare
deriving DecidableEq, Repr

namespace Property

/-- The name of a property. -/
def name : Property → String
  | breakable => "splittable"
  | inset => "split_indent"
  | length => "length"
  | multiline => "multi_line"
  | text => "text"
  | commas => "add_commas"
  | opening => "open_bracket"
  | closing => "close_bracket"
  | bareSingle => "omit_brackets_for_single"
  | ownLine => "new_line_before"
  | body => "body"
  | bare => "single"

/-- All properties. -/
def all : List Property :=
  [breakable, inset, length, multiline, text, commas, opening, closing, bareSingle, ownLine,
    body, bare]

/-- The property of a given name. -/
def ofName? (name : String) : Option Property :=
  all.find? (·.name == name)

end Property

namespace Build

/-- Whether a bracket leaves out its brackets. -/
def bare (id : TokenId) : Build Bool := do
  match ← tree id with
  | .bracket _ frame body => return frame.bare body
  | _ => return false

/-- The value of the property `name` of a token. -/
def getProperty (limits : Thresholds) (id : TokenId) (name : String) : Build Datum := do
  let store ← Attempt.state
  let missing : Fault := .noAttribute (.token (store.kind id)) name
  let entry ← Attempt.require (store.find? id) missing
  match Property.ofName? name, entry.node with
  | some .breakable, _ => return .bool entry.marks.breakable
  | some .inset, _ => return .int entry.marks.inset
  | some .length, _ => return .int (← length id)
  | some .multiline, _ => return .bool (← multiline limits id)
  | some .text, .leaf _ text => return .text text
  | some .commas, .group commas _ _ => return .bool commas
  | some .opening, .bracket frame _ => return .text frame.opening
  | some .closing, .bracket frame _ => return .text frame.closing
  | some .bareSingle, .bracket frame _ => return .bool frame.bareSingle
  | some .ownLine, .bracket frame _ => return .bool frame.ownLine
  | some .bare, .bracket _ _ => return .bool (← bare id)
  | _, _ => Attempt.fail missing

/-- Whether the content of a token has a property that can be given a new value. -/
def hasIn (property : Property) : Node → Bool
  | .leaf _ _ => property = .text
  | .group _ _ _ => property = .commas
  | .bracket _ _ => property ∈ [.opening, .closing, .bareSingle, .ownLine, .body]
  | .blank => false
  | .foreign _ _ => false

/-- The content of a token with a new value for a property, if the property is one of the content
and the value is one that it can have. -/
def replaceIn (property : Property) (value : Arg) : Node → Option Node
  | .leaf role _ =>
    match property, value with
    | .text, .datum (.text s) => some (.leaf role s)
    | _, _ => none
  | .group _ forced parts =>
    match property, value with
    | .commas, .datum (.bool b) => some (.group b forced parts)
    | _, _ => none
  | .bracket frame body =>
    match property, value with
    | .opening, .datum (.text s) => some (.bracket { frame with opening := s } body)
    | .closing, .datum (.text s) => some (.bracket { frame with closing := s } body)
    | .bareSingle, .datum (.bool b) => some (.bracket { frame with bareSingle := b } body)
    | .ownLine, .datum (.bool b) => some (.bracket { frame with ownLine := b } body)
    | .body, .token id => some (.bracket frame id)
    | _, _ => none
  | .blank => none
  | .foreign _ _ => none

/-- Gives the property `name` of a token a new value. Plain values have no properties. An inset is
checked. For the others a value of the wrong kind is left open. -/
def setProperty (owner : Arg) (name : String) (value : Arg) : Build Unit :=
  match owner with
  | .datum owner => Attempt.fail (.noAttribute owner.kind name)
  | .token id => do
    let store ← Attempt.state
    let kind := store.kind id
    let missing : Fault := .noAttribute (.token kind) name
    match Property.ofName? name with
    | none => Attempt.fail missing
    | some .length => Attempt.fail (.readOnly kind name)
    | some .multiline => Attempt.fail (.readOnly kind name)
    | some .bare => Attempt.fail (if kind = .bracket then .readOnly kind name else missing)
    | some .inset =>
      let inset ← checkInset kind value
      mark id fun marks => { marks with inset }
    | some .breakable =>
      match value with
      | .datum (.bool b) => mark id fun marks => { marks with breakable := b }
      | other => Attempt.fail (.uncovered (← kindOf other))
    | some property =>
      let entry ← Attempt.require (store.find? id) missing
      let got ← kindOf value
      let refusal := if hasIn property entry.node then .uncovered got else missing
      let node ← Attempt.require (replaceIn property value entry.node) refusal
      modify id fun entry => { entry with node }

end Build

end TokenLayout
