import TokenLayout.Settings
import TokenLayout.Token.Walk

/-!
# Measuring tokens

Two things are asked of a token: its length, which counts its texts and brackets but neither
the separators a group adds nor the breaks, and whether it takes several lines. A blank token
has no answer to either.

`Token.length?` and `Token.multiline?` compute them from the tree. `Token.readLength` and
`Token.readMultiline` read them through the memo: a group is measured at its first reading, and
keeps the answer. A reading that meets a blank token fails, and the cells filled on the way stay
filled.
-/

namespace TokenLayout

/-- The number of characters in the two brackets of a frame. -/
def Frame.length (frame : Frame) : Nat :=
  frame.opening.length + frame.closing.length

namespace Token

/-! ## From the tree alone -/

mutual

/-- The length of a token. -/
def length? : Token → Option Int
  | leaf _ _ text => some text.length
  | group _ _ _ parts => lengths? parts
  | bracket _ frame body => do return (← body.length?) + frame.length
  | blank _ => none
  | foreign _ length _ => some length

/-- The sum of the lengths of some tokens. -/
def lengths? : List Token → Option Int
  | [] => some 0
  | token :: tokens => do return (← token.length?) + (← lengths? tokens)

end

mutual

/-- Whether a token takes several lines. A group does if it is too long or has too many parts
or one of its parts does, unless it is forced. A bracket does if its body does, or if it starts
on a line of its own. -/
def multiline? (limits : Thresholds) : Token → Option Bool
  | leaf .. => some false
  | group _ _ (some forced) _ => some forced
  | group _ _ none parts => do
    let length ← lengths? parts
    if length > limits.maxLength || parts.length > limits.maxChildren then return true
    anyMultiline? limits parts
  | bracket _ frame body => do return (← body.multiline? limits) || frame.ownLine
  | blank _ => none
  | foreign _ _ multiline => some multiline

/-- Whether one of some tokens takes several lines. Those after the first that does are not
asked. -/
def anyMultiline? (limits : Thresholds) : List Token → Option Bool
  | [] => some false
  | token :: tokens => do
    if ← token.multiline? limits then return true
    anyMultiline? limits tokens

end

end Token

/-! ## Through the memo -/

/-- A measurement that may read and fill the memo. It has no value if it meets a blank token. -/
structure Reading (α : Type) where
  run : Memo → Option α × Memo

namespace Reading

variable {α β : Type}

instance : Monad Reading where
  pure a := ⟨fun memo => (some a, memo)⟩
  bind x f := ⟨fun memo =>
    match x.run memo with
    | (some a, memo) => (f a).run memo
    | (none, memo) => (none, memo)⟩

@[simp] theorem run_pure (a : α) (memo : Memo) : (pure a : Reading α).run memo = (some a, memo) :=
  rfl

theorem run_bind (x : Reading α) (f : α → Reading β) (memo : Memo) :
    (x >>= f).run memo =
      match x.run memo with
      | (some a, memo) => (f a).run memo
      | (none, memo) => (none, memo) :=
  rfl

/-- The measurement of a token that has none. -/
def unmeasurable : Reading α :=
  ⟨fun memo => (none, memo)⟩

/-- The length in the cell of a token. An empty cell is filled with what `measure` finds. -/
def keepLength (id : TokenId) (measure : Reading Int) : Reading Int :=
  ⟨fun memo =>
    match (memo.get id).length with
    | some n => (some n, memo)
    | none =>
      match measure.run memo with
      | (some n, memo) => (some n, memo.fillLength id n)
      | (none, memo) => (none, memo)⟩

/-- The decision in the cell of a token. An empty cell is filled with what `decide` finds. -/
def keepMultiline (id : TokenId) (decide : Reading Bool) : Reading Bool :=
  ⟨fun memo =>
    match (memo.get id).multiline with
    | some b => (some b, memo)
    | none =>
      match decide.run memo with
      | (some b, memo) => (some b, memo.fillMultiline id b)
      | (none, memo) => (none, memo)⟩

@[simp] theorem run_unmeasurable (memo : Memo) :
    (unmeasurable : Reading α).run memo = (none, memo) :=
  rfl

end Reading

namespace Token

mutual

/-- Reads the length of a token. -/
def readLength : Token → Reading Int
  | leaf _ _ text => pure text.length
  | group tag _ _ parts => .keepLength tag.id (readLengths parts)
  | bracket _ frame body => do
    let length ← body.readLength
    return length + frame.length
  | blank _ => .unmeasurable
  | foreign _ length _ => pure length

/-- Reads the lengths of some tokens in order, and sums them. -/
def readLengths : List Token → Reading Int
  | [] => pure 0
  | token :: tokens => do
    let length ← token.readLength
    let rest ← readLengths tokens
    return length + rest

end

mutual

/-- Reads whether a token takes several lines. A group that is not forced has its length read
first. -/
def readMultiline (limits : Thresholds) : Token → Reading Bool
  | leaf .. => pure false
  | group tag _ (some forced) _ => .keepMultiline tag.id (pure forced)
  | group tag commas none parts => .keepMultiline tag.id do
    let length ← (group tag commas none parts).readLength
    if length > limits.maxLength || parts.length > limits.maxChildren then return true
    readAnyMultiline limits parts
  | bracket _ frame body => do
    let multiline ← body.readMultiline limits
    return multiline || frame.ownLine
  | blank _ => .unmeasurable
  | foreign _ _ multiline => pure multiline

/-- Reads in order whether some tokens take several lines, up to the first that does. -/
def readAnyMultiline (limits : Thresholds) : List Token → Reading Bool
  | [] => pure false
  | token :: tokens => do
    let multiline ← token.readMultiline limits
    if multiline then return true
    readAnyMultiline limits tokens

end

/-- Reads both measurements of some tokens, one token after the other. -/
def readAll (limits : Thresholds) : List Token → Reading Unit
  | [] => pure ()
  | token :: tokens => do
    let _ ← token.readLength
    let _ ← token.readMultiline limits
    readAll limits tokens

/-- Fills every cell of a tree, those of a token after those below it. -/
def measure (limits : Thresholds) (token : Token) : Reading Unit :=
  readAll limits token.walk.reverse

end Token

end TokenLayout
