import TokenLayout.Store.Construct

/-!
# Expression shapes

The usual forms of expressions as tokens: which parts they have, where a line may break, and what
is set deeper. A text in place of a part stands for a leaf. A shape marks the parts it is given,
and the marks stay also if it is refused.
-/

namespace TokenLayout

/-- A number as `mantissa / 10 ^ places`. -/
def Datum.number? : Datum → Option (Int × Nat)
  | .int n => some (n, 0)
  | .bool b => some (b.toInt, 0)
  | .real mantissa places => some (mantissa, places)
  | _ => none

/-- Two values joined end to end: texts and lists are put one after the other, numbers are
added. -/
def Datum.join : Datum → Datum → Except Fault Datum
  | .text s, .text t => .ok (.text (s ++ t))
  | .list xs, .list ys => .ok (.list (xs ++ ys))
  | left, right =>
    match left.number?, right.number? with
    | some (m, 0), some (n, 0) => .ok (.int (m + n))
    | some (m, p), some (n, q) => .ok (.real (m * Nat.pow 10 q + n * Nat.pow 10 p) (p + q))
    | _, _ => .error (.unjoinable left.kind right.kind)

namespace Build

/-- A part of a shape. A text becomes a leaf. -/
def part : Arg → Build Arg
  | .datum (.text s) => do return .token (← word s)
  | other => pure other

/-- The parts of a shape. -/
def parts : List Arg → Build (List Arg)
  | [] => pure []
  | arg :: args => do
    let first ← part arg
    let rest ← parts args
    return first :: rest

/-- A part that may start a line and is then set one level deeper. -/
def hanging (arg : Arg) : Build Arg := do
  match ← part arg with
  | .token id =>
    mark id fun _ => { breakable := true, inset := 1 }
    return .token id
  | .datum value => Attempt.fail (.noAttribute value.kind "splittable")

/-- Items separated by commas. -/
def list (args : Listing Arg) (inset : Nat := 0) (forced : Option Bool := none) :
    Build Arg := do
  let args ← parts (← items args)
  return .token (← groupOf args true forced { inset })

/-- The name of a member, with its dot. -/
def memberName (name : String) : Build Arg := do
  return .token (← word ("." ++ name) { breakable := true, inset := 1 })

/-- Both operands in parentheses, the right one hanging. -/
def binary (left : Arg) (operator : String) (right : Arg) : Build TokenId := do
  let right ← hanging right
  let left ← part left
  let operator ← word (" " ++ operator ++ " ")
  let body ← groupOf [left, .token operator, right]
  bracketOf "(" ")" (.token body) true

/-- An operator before its operand, which has parentheses unless it is a single element. -/
def prefixed (operator : String) (operand : Arg) : Build TokenId := do
  let operator ← word operator
  let operand ← bracketOf "(" ")" (← part operand) true
  groupOf [.token operator, .token operand]

/-- A call with its arguments in parentheses. -/
def call (callee : Arg) (args : Listing Arg) : Build TokenId := do
  let callee ← part callee
  let args ← bracketOf "(" ")" (← list args 1)
  groupOf [callee, .token args]

/-- A call of a member. -/
def methodCall (target : Arg) (name : String) (args : Listing Arg) : Build TokenId := do
  let target ← part target
  let name ← memberName name
  let args ← bracketOf "(" ")" (← list args 1)
  groupOf [target, name, .token args]

/-- A member. -/
def member (target : Arg) (name : String) : Build TokenId := do
  let target ← part target
  let name ← memberName name
  groupOf [target, name]

/-- An element picked out by indices in square brackets. -/
def index (target : Arg) (indices : Listing Arg) : Build TokenId := do
  let indices ← items indices .notSpread
  let target ← part target
  let indices ← bracketOf "[" "]" (← list (.each indices))
  groupOf [target, .token indices]

/-- A choice between two expressions. A line may start with either of its operators. -/
def conditional (test ifTrue ifFalse : Arg) : Build TokenId := do
  let test ← part test
  let question ← word " ? " { breakable := true }
  let ifTrue ← part ifTrue
  let colon ← word " : " { breakable := true }
  let ifFalse ← part ifFalse
  groupOf [test, .token question, ifTrue, .token colon, ifFalse]

/-- A function of some parameters, with its body hanging. -/
def arrow (parameters : Datum) (body : Arg) (operator : Datum) : Build TokenId := do
  let body ← hanging body
  let head ← Attempt.ofExcept (parameters.join operator)
  let head ← leaf (.datum head) {}
  groupOf [.token head, body]

/-- A head with a block of items below it, one item a line. -/
def initializer (head : Arg) (args : Listing Arg) : Build TokenId := do
  let block ← list args 0 (some true)
  let head ← part head
  let block ← bracketOf "\x7b" "\x7d" block false true
  groupOf [head, .token block]

/-- Items between two brackets. -/
def sequence (opening closing : Arg) (args : Listing Arg) : Build TokenId := do
  let args ← list args
  bracket opening closing args false false {}

end Build

end TokenLayout
