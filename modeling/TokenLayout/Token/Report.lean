import TokenLayout.Token.Walk

/-!
# Reports on tokens

What can be seen of a token without measuring it.
-/

namespace TokenLayout

/-- What a report says of a token beside its kind and marks. -/
inductive Detail where
  | text (s : String)
  /-- The number of parts, and the cells as they are. -/
  | parts (count : Nat) (cells : Cells)
  /-- Whether the brackets are left out. -/
  | bare (b : Bool)
  | nothing
deriving DecidableEq, Repr

/-- What can be seen of a token without measuring it. -/
structure Report where
  kind : Kind
  marks : Marks
  detail : Detail
deriving DecidableEq, Repr

namespace Token

/-- What a report says of a token beside its kind and marks. -/
def detail (memo : Memo) : Token → Detail
  | leaf _ _ text => .text text
  | group tag _ _ parts => .parts parts.length (memo.get tag.id)
  | bracket _ frame body => .bare (frame.bare body)
  | blank _ => .nothing
  | foreign .. => .nothing

/-- A report on a token. -/
def report (memo : Memo) (token : Token) : Report :=
  { kind := token.kind, marks := token.tag.toMarks, detail := token.detail memo }

/-- Reports on the tokens of a tree, every token before those below it. -/
def reports (memo : Memo) (token : Token) : List Report :=
  token.walk.map (report memo)

end Token

end TokenLayout
