/-!
# Pieces of a text

Cutting a text at the occurrences of a separator, which are looked for from the left and do
not overlap.
-/

namespace TokenLayout.Text

/-- The pieces of a text between the occurrences of `sep`, after its first `skip` characters,
which belong to an occurrence found before. -/
def piecesAfter (sep : List Char) : (skip : Nat) → List Char → List (List Char)
  | _, [] => [[]]
  | skip + 1, _ :: cs => piecesAfter sep skip cs
  | 0, c :: cs =>
    if sep.isPrefixOf (c :: cs) then [] :: piecesAfter sep (sep.length - 1) cs
    else
      match piecesAfter sep 0 cs with
      | [] => [[c]]
      | piece :: rest => (c :: piece) :: rest

/-- The pieces of a text between the occurrences of `sep`, one more than there are occurrences. -/
def pieces (sep s : List Char) : List (List Char) :=
  piecesAfter sep 0 s

end TokenLayout.Text
