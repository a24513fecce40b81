import TokenLayout.Datum
import TokenLayout.Memo

/-!
# Token trees

A token tree describes what an expression looks like: leaves of fixed text, groups of parts in
a row, and brackets round a body. Every token is marked with whether a line may start with it
and how much deeper its content goes.

Tokens are shared: a token may stand in many places of a tree, each time with the same number
in its tag. `Token.walk` lists the tokens of a tree as often as they occur.
-/

namespace TokenLayout

/-- The marks of a token. -/
structure Marks where
  /-- A group on several lines starts a line with this token. -/
  breakable : Bool := false
  /-- Levels by which this token is set deeper than its surroundings. -/
  inset : Nat := 0
deriving DecidableEq, Repr

/-- A token's number and marks. -/
structure Tag extends Marks where
  id : TokenId
deriving DecidableEq, Repr

/-- A leaf is a word of its own or the separator of a list. -/
inductive LeafRole where
  | word
  | separator
deriving DecidableEq, Repr

/-- The kind of a leaf. -/
def LeafRole.kind : LeafRole → Kind
  | word => .leaf
  | separator => .separator

/-- The text of a separator. -/
def separatorText : String :=
  ", "

/-- How a bracket is drawn round its body. -/
structure Frame where
  opening : String
  closing : String
  /-- The brackets are left out round a body that is a single element. -/
  bareSingle : Bool := false
  /-- The bracket starts on a line of its own, and so does its body. -/
  ownLine : Bool := false
deriving DecidableEq, Repr

/-- A token with all that is below it. -/
inductive Token where
  | leaf (tag : Tag) (role : LeafRole) (text : String)
  /-- Parts in a row, separated if `commas`. A `forced` group does not decide for itself whether
  it goes on several lines. -/
  | group (tag : Tag) (commas : Bool) (forced : Option Bool) (parts : List Token)
  | bracket (tag : Tag) (frame : Frame) (body : Token)
  | blank (tag : Tag)
  | foreign (tag : Tag) (length : Int) (multiline : Bool)

namespace Token

/-- The number and marks of a token. -/
def tag : Token → Tag
  | leaf tag _ _ => tag
  | group tag _ _ _ => tag
  | bracket tag _ _ => tag
  | blank tag => tag
  | foreign tag _ _ => tag

/-- The kind of a token. -/
def kind : Token → Kind
  | leaf _ role _ => role.kind
  | group .. => .group
  | bracket .. => .bracket
  | blank _ => .blank
  | foreign .. => .foreign

/-- The tokens right below a token, in order. -/
def children : Token → List Token
  | group _ _ _ parts => parts
  | bracket _ _ body => [body]
  | _ => []

/-- A single element is anything but a group of several parts or of none. -/
def isSingle : Token → Bool
  | group _ _ _ parts => parts.length == 1
  | _ => true

end Token

/-- Whether a frame leaves out its brackets round `body`. -/
def Frame.bare (frame : Frame) (body : Token) : Bool :=
  !frame.ownLine && frame.bareSingle && body.isSingle

end TokenLayout
