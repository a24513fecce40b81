import TokenLayout.Recipe
import TokenLayout.Store.Measure

/-!
# Page scripts

Steps on one page. A step that stops with a fault keeps what it put on the page before.
-/

namespace TokenLayout

/-- A step on a page. -/
inductive PageStep where
  | append (s : String)
  | newline (level : Int)
  | clear
  /-- Writes a token at a level. -/
  | write (recipe : Recipe) (level : Int)
  /-- Has a token write itself at a level. -/
  | render (recipe : Recipe) (level : Int)

/-- What is seen of a page after a step. -/
structure PageView where
  page : Page
  fault : Option Fault

namespace PageStep

/-- Writes what a recipe makes. If that is no token, it stops with the given fault. -/
def writeRecipe (limits : Thresholds) (recipe : Recipe) (level : Int) (page : Page)
    (refuse : ValueKind → Fault) : PageView :=
  match (recipe.build []).run {} with
  | (.error fault, _) => ⟨page, some fault⟩
  | (.ok (.datum value), _) => ⟨page, some (refuse value.kind)⟩
  | (.ok (.token id), store) =>
    match store.write limits id level page with
    | (.ok _, page, _) => ⟨page, none⟩
    | (.error fault, page, _) => ⟨page, some fault⟩

/-- Runs a step. -/
def run (limits : Thresholds) (page : Page) : PageStep → PageView
  | append s => ⟨page.append s, none⟩
  | newline level =>
    match page.newline level with
    | .ok page => ⟨page, none⟩
    | .error fault => ⟨page, some fault⟩
  | clear => ⟨page.clear, none⟩
  | write recipe level => writeRecipe limits recipe level page .unwritable
  | render recipe level => writeRecipe limits recipe level page (.noAttribute · "render")

/-- Runs steps one after the other, and gives the page after each. -/
def runAll (limits : Thresholds) : Page → List PageStep → List PageView
  | _, [] => []
  | page, step :: steps =>
    let view := step.run limits page
    view :: runAll limits view.page steps

end PageStep

/-- Steps to run one after the other on a page. -/
abbrev PageScript := List PageStep

/-- Runs a script on an empty page, under settings that only give the thresholds. -/
def PageScript.run (width : Int) (terminator : String) (fields : Option Fields)
    (script : PageScript) : Except Fault (List PageView) := do
  let settings ← Settings.ofFields (fields.getD [])
  return PageStep.runAll settings.toThresholds { width, terminator } script

end TokenLayout
