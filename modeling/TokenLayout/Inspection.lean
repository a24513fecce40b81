import TokenLayout.Recipe
import TokenLayout.Store.Measure

/-!
# Inspections

Whole runs on a single tree: `Recipe.render` makes it, renders it and then measures it, and
`Recipe.inspect` makes it and measures all of its tokens.
-/

namespace TokenLayout

/-- A rendered tree with its measurements. -/
structure Sheet where
  rendering : Rendering
  length : Int
  multiline : Bool
  description : Option String
deriving DecidableEq, Repr

/-- A token with its measurements. -/
structure Measured where
  report : Report
  length : Int
  multiline : Bool
deriving DecidableEq, Repr

namespace Build

/-- Renders a tree and then reads its measurements under the default settings. -/
def sheet (settings : Settings) (root : Arg) : Build Sheet := do
  let rendering ← render settings root
  match root with
  | .token id =>
    let length ← length id
    let multiline ← multiline {} id
    return { rendering, length, multiline, description := ← describe? root }
  | .datum value => Attempt.fail (.contract .renderer (.rootExpected value.kind))

/-- The measurements of some tokens. -/
def measurements (limits : Thresholds) : List Token → Build (List Measured)
  | [] => pure []
  | token :: tokens => do
    let report := token.report (← Attempt.state).memo
    let length ← reading token.readLength
    let multiline ← reading (token.readMultiline limits)
    return { report, length, multiline } :: (← measurements limits tokens)

/-- Measures every token of a tree. -/
def inspect (limits : Thresholds) (root : Arg) : Build (List Measured) := do
  measure limits root
  match root with
  | .token id => measurements limits (← tree id).walk
  | .datum _ => return []

end Build

/-- Makes a tree and renders it under settings that are made after it. -/
def Recipe.render (recipe : Recipe) (fields : Option Fields) : Except Fault Sheet :=
  let run : Build Sheet := do
    let root ← recipe.build []
    let settings ← Attempt.ofExcept (Settings.ofFields (fields.getD []))
    Build.sheet settings root
  (run.run {}).1

/-- Makes a tree under given settings and measures all of it. -/
def Recipe.inspect (recipe : Recipe) (fields : Option Fields) : Except Fault (List Measured) :=
  let run : Build (List Measured) := do
    let settings ← Attempt.ofExcept (Settings.ofFields (fields.getD []))
    let root ← recipe.build []
    Build.inspect settings.toThresholds root
  (run.run {}).1

end TokenLayout
