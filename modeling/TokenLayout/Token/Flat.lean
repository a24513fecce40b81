import TokenLayout.Token.Basic

/-!
# Flat text

The text of a tree on one line: what a layout writes, without its breaks and padding.
-/

namespace TokenLayout.Token

mutual

/-- The text of a token on one line. Tokens that cannot be written have none. -/
def flat : Token → String
  | leaf _ _ text => text
  | group _ commas _ parts => flats commas true parts
  | bracket _ frame body =>
    if frame.bare body then body.flat else frame.opening ++ body.flat ++ frame.closing
  | blank _ => ""
  | foreign .. => ""

/-- The parts of a group on one line, the first of them or those after it. -/
def flats (commas : Bool) : (first : Bool) → List Token → String
  | _, [] => ""
  | first, part :: parts =>
    (if commas && !first then separatorText else "") ++ part.flat ++ flats commas false parts

end

end TokenLayout.Token
