import TokenLayout.Store.Construct
import TokenLayout.Token.Printer
import TokenLayout.Token.Render
import TokenLayout.Token.Report

/-!
# Measuring and rendering in a store

What is measured, walked or rendered is the tree under a token as the store has it, and the only
thing that changes is the memo.
-/

namespace TokenLayout

/-- Writes a token of a store on a page at `level`. What was written before a fault stays on the
page, and what was measured stays in the store. -/
def Store.write (store : Store) (limits : Thresholds) (id : TokenId) (level : Int) (page : Page) :
    Except Fault Unit × Page × Store :=
  match store.tree? id with
  | none => (.error .endless, page, store)
  | some token =>
    let (page, draft) := page.write limits token level store.memo
    (draft.result, page, { store with memo := draft.memo })

namespace Build

/-- Takes a measurement with the store's memo. -/
def reading {α : Type} (x : Reading α) : Build α :=
  ⟨fun store =>
    match x.run store.memo with
    | (some a, memo) => (.ok a, { store with memo })
    | (none, memo) => (.error .unmeasurable, { store with memo })⟩

/-- The length of a token. -/
def length (id : TokenId) : Build Int := do
  reading (← tree id).readLength

/-- Whether a token takes several lines. -/
def multiline (limits : Thresholds) (id : TokenId) : Build Bool := do
  reading ((← tree id).readMultiline limits)

/-- The kinds of the tokens of a tree. A plain value is all there is below it. -/
def walk : Arg → Build (List ValueKind)
  | .token id => do return (← tree id).walk.map fun token => .token token.kind
  | .datum value => pure [value.kind]

/-- Measures every token of a tree. -/
def measure (limits : Thresholds) : Arg → Build Unit
  | .token id => do reading ((← tree id).measure limits)
  | .datum value => Attempt.fail (.noAttribute value.kind "length")

/-- Renders a tree. -/
def render (settings : Settings) : Arg → Build Rendering
  | .token id => do
    let token ← tree id
    ⟨fun store =>
      let (result, memo) := token.render settings store.memo
      (result, { store with memo })⟩
  | .datum value => Attempt.fail (.contract .renderer (.rootExpected value.kind))

/-- Reports on the tokens of a tree. -/
def reports (id : TokenId) : Build (List Report) := do
  let token ← tree id
  let store ← Attempt.state
  return token.reports store.memo

/-- The description of a token. A plain value has none. -/
def describe? : Arg → Build (Option String)
  | .token id => do return (← tree id).describe?
  | .datum _ => pure none

end Build

end TokenLayout
