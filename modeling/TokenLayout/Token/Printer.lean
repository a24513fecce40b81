import TokenLayout.Text.Quoted
import TokenLayout.Token.Basic

/-!
# Describing tokens

A token is described as a call that makes it: its kind, then in parentheses its content and
those of its properties that are not the usual ones.
-/

namespace TokenLayout

/-- A property of a given name, if it has the value `true`. -/
def flagged (name : String) (value : Bool) : List String :=
  if value then [name ++ "=True"] else []

/-- The marks that are not the usual ones. -/
def Marks.described (marks : Marks) : List String :=
  flagged "splittable" marks.breakable ++
    if marks.inset = 0 then [] else ["split_indent=" ++ toString marks.inset]

/-- The decision a group is forced to, if it is. -/
def describedForced : Option Bool → List String
  | none => []
  | some forced => ["multi_line=" ++ if forced then "True" else "False"]

/-- A call with some arguments. -/
def callText (kind : Kind) (arguments : List String) : String :=
  kind.name ++ "(" ++ String.intercalate ", " arguments ++ ")"

namespace Token

mutual

/-- A token described. Tokens of the kinds that cannot be written have no description. -/
def describe? : Token → Option String
  | leaf tag .word text => some (callText .leaf (Text.quote text :: tag.described))
  | leaf tag .separator _ => some (callText .separator tag.described)
  | group tag commas forced parts => do
    let parts ← describes? parts
    return callText .group (("[" ++ String.intercalate ", " parts ++ "]") ::
      (flagged "add_commas" commas ++ describedForced forced ++ tag.described))
  | bracket tag frame body => do
    let body ← body.describe?
    return callText .bracket (Text.quote frame.opening :: Text.quote frame.closing :: body ::
      (flagged "new_line_before" frame.ownLine ++
        flagged "omit_brackets_for_single" frame.bareSingle ++ tag.described))
  | blank _ => none
  | foreign .. => none

/-- Some tokens described, if all of them can be. -/
def describes? : List Token → Option (List String)
  | [] => some []
  | token :: tokens => do return (← token.describe?) :: (← describes? tokens)

end

end Token

end TokenLayout
