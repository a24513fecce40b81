import TokenLayout.Store.Basic

/-!
# Making tokens

Tokens are made from values that need not be what is expected. Each way to make a token checks
them in an order of its own and reports the first that is wrong. A group takes parts until it is
measured.
-/

namespace TokenLayout

/-- What an operation is handed where a token belongs: a token or a plain value. -/
inductive Arg where
  | token (id : TokenId)
  | datum (value : Datum)
deriving DecidableEq, Repr

/-- What an operation is handed where a list belongs: items, or a plain value that is no list. -/
inductive Listing (α : Type) where
  | each (items : List α)
  | stray (value : Datum)

/-- Marks as they are asked for. -/
structure MarkRequest where
  breakable : Bool := false
  inset : Datum := .int 0
deriving DecidableEq, Repr

namespace Build

/-- The kind of a value. -/
def kindOf : Arg → Build ValueKind
  | .token id => do
    let store ← Attempt.state
    return .token (store.kind id)
  | .datum value => pure value.kind

/-- The inset asked for a token of some kind, which is a number that is not negative. -/
def checkInset (kind : Kind) : Arg → Build Nat
  | .datum (.int n) =>
    if n < 0 then Attempt.fail (.contract (.token kind) (.negativeInset n)) else pure n.toNat
  | other => do Attempt.fail (.notInteger (← kindOf other))

/-- The marks asked for a token of some kind. -/
def checkMarks (kind : Kind) (request : MarkRequest) : Build Marks := do
  let inset ← checkInset kind (.datum request.inset)
  return { breakable := request.breakable, inset }

/-- The items of a list. The items of a text are its characters, and those of a dictionary its
names. Other values have none, which is reported by `refuse`. -/
def items (listing : Listing Arg) (refuse : ValueKind → Fault := .notIterable) :
    Build (List Arg) :=
  match listing with
  | .each items => pure items
  | .stray (.text s) => pure (s.toList.map fun c => .datum (.text c.toString))
  | .stray (.list items) => pure (items.map .datum)
  | .stray (.dict entries) => pure (entries.map fun (name, _) => .datum (.text name))
  | .stray value => Attempt.fail (refuse value.kind)

/-! ## Leaves -/

/-- A leaf of a given text. -/
def word (s : String) (marks : Marks := {}) : Build TokenId :=
  make marks (.leaf .word s)

/-- A leaf. The text is checked before the marks. -/
def leaf (text : Arg) (request : MarkRequest) : Build TokenId := do
  match text with
  | .datum (.text s) => word s (← checkMarks .leaf request)
  | other => Attempt.fail (.contract (.token .leaf) (.textExpected (← kindOf other)))

/-- A separator. -/
def separator (request : MarkRequest) : Build TokenId := do
  make (← checkMarks .separator request) (.leaf .separator separatorText)

/-! ## Groups -/

/-- Puts a token at the end of a group's parts. Parts of a group with commas become breakable. -/
def attach (group part : TokenId) : Build Unit := do
  let store ← Attempt.state
  Attempt.when (store.hasCommas group) (mark part fun marks => { marks with breakable := true })
  modify group fun entry => { entry with node := entry.node.append part }

/-- Adds a part to a group. A missing part is left out. Otherwise it must be a token, and the
group must not have been measured. -/
def add (group : TokenId) : Arg → Build Unit
  | .datum .null => pure ()
  | .datum value => Attempt.fail (.contract (.token .group) (.partExpected value.kind))
  | .token part => do
    let store ← Attempt.state
    if (store.memo.get group).measured then Attempt.fail (.contract (.token .group) .measured)
    else attach group part

/-- Adds parts to a group, up to the first that is refused. -/
def addAll (group : TokenId) : List Arg → Build Unit
  | [] => pure ()
  | part :: parts => do
    add group part
    addAll group parts

/-- Adds a leaf to a group. -/
def addText (group : TokenId) (text : Arg) (request : MarkRequest) : Build Unit := do
  let part ← leaf text request
  add group (.token part)

/-- A group of given marks. -/
def groupOf (parts : List Arg) (commas : Bool := false) (forced : Option Bool := none)
    (marks : Marks := {}) : Build TokenId := do
  let group ← make marks (.group commas forced [])
  addAll group parts
  return group

/-- A group. The marks are checked before the parts. -/
def group (parts : Listing Arg) (commas : Bool) (forced : Option Bool) (request : MarkRequest) :
    Build TokenId := do
  let marks ← checkMarks .group request
  groupOf (← items parts) commas forced marks

/-! ## Brackets -/

/-- A bracket. The body is checked first, then the brackets, then the marks. -/
def bracket (opening closing body : Arg) (bareSingle ownLine : Bool) (request : MarkRequest) :
    Build TokenId := do
  match body with
  | .datum .null => Attempt.fail (.contract (.token .bracket) .bodyMissing)
  | .datum value => Attempt.fail (.contract (.token .bracket) (.bodyExpected value.kind))
  | .token body =>
    match opening, closing with
    | .datum (.text opening), .datum (.text closing) =>
      let marks ← checkMarks .bracket request
      make marks (.bracket { opening, closing, bareSingle, ownLine } body)
    | _, _ => Attempt.fail (.contract (.token .bracket) .bracketsExpected)

/-- A bracket of given texts. -/
def bracketOf (opening closing : String) (body : Arg) (bareSingle : Bool := false)
    (ownLine : Bool := false) : Build TokenId :=
  bracket (.datum (.text opening)) (.datum (.text closing)) body bareSingle ownLine {}

/-! ## Tokens that cannot be written -/

/-- A token without measurements. -/
def blank (request : MarkRequest) : Build TokenId := do
  make (← checkMarks .blank request) .blank

/-- A token of given measurements. -/
def foreign (length : Int) (multiline : Bool) (request : MarkRequest) : Build TokenId := do
  make (← checkMarks .foreign request) (.foreign length multiline)

end Build

end TokenLayout
