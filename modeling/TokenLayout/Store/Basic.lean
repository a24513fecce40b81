import TokenLayout.Attempt
import TokenLayout.Token.Basic

/-!
# Stores of tokens

Tokens are made one by one, change, and stand in many places. A store has an entry for each of
them, which names the tokens below it by their numbers, and the memo of their measurements.
`Store.tree?` is the tree under a token as it is now, and everything that is measured or written
is read off that tree.
-/

namespace TokenLayout

/-- The content of a token, with the tokens below it by number. -/
inductive Node where
  | leaf (role : LeafRole) (text : String)
  | group (commas : Bool) (forced : Option Bool) (parts : List TokenId)
  | bracket (frame : Frame) (body : TokenId)
  | blank
  | foreign (length : Int) (multiline : Bool)
deriving DecidableEq, Repr

/-- The kind of a token with some content. -/
def Node.kind : Node → Kind
  | leaf role _ => role.kind
  | group .. => .group
  | bracket .. => .bracket
  | blank => .blank
  | foreign .. => .foreign

/-- The content of a group with one more part. Other content takes no parts. -/
def Node.append (part : TokenId) : Node → Node
  | group commas forced parts => group commas forced (parts ++ [part])
  | node => node

/-- A token in a store. -/
structure Entry where
  marks : Marks
  node : Node
deriving DecidableEq, Repr

/-- The tokens made so far, each under the number of its place, and their measurements. -/
structure Store where
  entries : Array Entry := #[]
  memo : Memo := {}
deriving DecidableEq, Repr

namespace Store

/-- The entry of a token. -/
def find? (store : Store) (id : TokenId) : Option Entry :=
  store.entries[id]?

/-- Changes the entry of a token. -/
def modify (store : Store) (id : TokenId) (f : Entry → Entry) : Store :=
  { store with entries := store.entries.modify id f }

/-- The kind of a token. A number that no token has goes by the plainest kind. -/
def kind (store : Store) (id : TokenId) : Kind :=
  ((store.find? id).map (·.node.kind)).getD .blank

/-- Whether a token is a group that separates its parts. -/
def hasCommas (store : Store) (id : TokenId) : Bool :=
  match store.find? id with
  | some ⟨_, .group commas _ _⟩ => commas
  | _ => false

/-- The tree under a token, if it has at most `depth` tokens below one another. -/
def treeWithin (store : Store) : (depth : Nat) → TokenId → Option Token
  | 0, _ => none
  | depth + 1, id => do
    let entry ← store.find? id
    let tag : Tag := { entry.marks with id }
    match entry.node with
    | .leaf role text => return .leaf tag role text
    | .group commas forced parts =>
      return .group tag commas forced (← parts.mapM (store.treeWithin depth))
    | .bracket frame body => return .bracket tag frame (← store.treeWithin depth body)
    | .blank => return .blank tag
    | .foreign length multiline => return .foreign tag length multiline

/-- The tree under a token that is there. There is none only if the token, or one under it, contains
itself, since otherwise no more tokens stand below one another than there are. -/
def tree? (store : Store) (id : TokenId) : Option Token :=
  store.treeWithin store.entries.size id

end Store

/-- Work on a store. -/
abbrev Build := Attempt Store

namespace Build

/-- Makes a token. -/
def make (marks : Marks) (node : Node) : Build TokenId := do
  let store ← Attempt.state
  Attempt.update fun store => { store with entries := store.entries.push { marks, node } }
  return store.entries.size

/-- Changes a token. -/
def modify (id : TokenId) (f : Entry → Entry) : Build Unit :=
  Attempt.update fun store => store.modify id f

/-- Changes the marks of a token. -/
def mark (id : TokenId) (f : Marks → Marks) : Build Unit :=
  modify id fun entry => { entry with marks := f entry.marks }

/-- The tree under a token. If there is none, nothing that needs it comes to an end, and nothing is
measured. -/
def tree (id : TokenId) : Build Token := do
  let store ← Attempt.state
  Attempt.require (store.tree? id) .endless

end Build

end TokenLayout
