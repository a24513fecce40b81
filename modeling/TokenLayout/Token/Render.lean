import TokenLayout.LogChannel
import TokenLayout.Text.Pieces
import TokenLayout.Token.Layout

/-!
# Rendering

A tree is rendered by writing it at level zero on an empty page made for the settings. One
line is logged for each rendering, with the size of the text.
-/

namespace TokenLayout

/-- An empty page for some settings. -/
def Settings.page (settings : Settings) : Page :=
  { width := settings.indentWidth, terminator := settings.newline }

/-- A rendered tree. -/
structure Rendering where
  /-- The kind of the token at the root. -/
  kind : Kind
  text : String
  /-- The number of lines, counted in the text. -/
  lines : Nat
deriving DecidableEq, Repr

namespace Rendering

/-- A text rendered from a token, with its lines between the occurrences of `newline`. -/
def ofText (kind : Kind) (newline text : String) : Rendering :=
  { kind, text, lines := (Text.pieces newline.toList text.toList).length }

/-- What is logged for a rendering. -/
def log (rendering : Rendering) : String :=
  LogChannel.qualify "renderers.text" ++ " DEBUG Rendered " ++ rendering.kind.name ++ ": " ++
    toString rendering.text.length ++ " chars, " ++ toString rendering.lines ++ " lines"

end Rendering

/-- Renders a tree. The memo is kept also if rendering stops with a fault. -/
def Token.render (settings : Settings) (token : Token) (memo : Memo) :
    Except Fault Rendering × Memo :=
  let (page, draft) := settings.page.write settings.toThresholds token 0 memo
  (draft.result.map fun _ => .ofText token.kind settings.newline page.build, draft.memo)

end TokenLayout
