import TokenLayout.Store.Expression

/-!
# Recipes

A recipe says how to make a token from nested parts. It is followed from the inside out and from
the left to the right, and stops at the first fault. The tokens made up to then stay in the store,
and so do the marks given to tokens that were there before.
-/

namespace TokenLayout

/-- How to make a token, or a plain value in place of one. -/
inductive Recipe where
  | datum (value : Datum)
  /-- What a name is bound to. -/
  | named (name : String)
  | leaf (text : Recipe) (request : MarkRequest)
  | separator (request : MarkRequest)
  | group (parts : Listing Recipe) (commas : Bool) (forced : Option Bool) (request : MarkRequest)
  | bracket (body opening closing : Recipe) (bareSingle ownLine : Bool) (request : MarkRequest)
  | blank (request : MarkRequest)
  | foreign (length : Int) (multiline : Bool) (request : MarkRequest)
  | binary (left : Recipe) (operator : String) (right : Recipe)
  | prefixed (operator : String) (operand : Recipe)
  | call (callee : Recipe) (args : Listing Recipe)
  | methodCall (target : Recipe) (name : String) (args : Listing Recipe)
  | member (target : Recipe) (name : String)
  | index (target : Recipe) (indices : Listing Recipe)
  | conditional (test ifTrue ifFalse : Recipe)
  | arrow (parameters : Datum) (body : Recipe) (operator : Datum)
  | initializer (head : Recipe) (items : Listing Recipe)
  | sequence (opening closing : Recipe) (items : Listing Recipe)

/-- What stands between the parameters and the body of a function, if nothing else is asked for. -/
def arrowOperator : Datum :=
  .text " => "

/-- Tokens and plain values by name, the latest first. -/
abbrev Names := List (String × Arg)

namespace Recipe

mutual

/-- Follows a recipe. -/
def build (names : Names) : Recipe → Build Arg
  | datum value => pure (.datum value)
  | named name => Attempt.require (names.lookup name) (.unboundName name)
  | leaf text request => do
    let text ← text.build names
    return .token (← Build.leaf text request)
  | separator request => do return .token (← Build.separator request)
  | group parts commas forced request => do
    let parts ← buildListing names parts
    return .token (← Build.group parts commas forced request)
  | bracket body opening closing bareSingle ownLine request => do
    let body ← body.build names
    let opening ← opening.build names
    let closing ← closing.build names
    return .token (← Build.bracket opening closing body bareSingle ownLine request)
  | blank request => do return .token (← Build.blank request)
  | foreign length multiline request => do
    return .token (← Build.foreign length multiline request)
  | binary left operator right => do
    let left ← left.build names
    let right ← right.build names
    return .token (← Build.binary left operator right)
  | prefixed operator operand => do
    let operand ← operand.build names
    return .token (← Build.prefixed operator operand)
  | call callee args => do
    let callee ← callee.build names
    let args ← buildListing names args
    return .token (← Build.call callee args)
  | methodCall target name args => do
    let target ← target.build names
    let args ← buildListing names args
    return .token (← Build.methodCall target name args)
  | member target name => do
    let target ← target.build names
    return .token (← Build.member target name)
  | index target indices => do
    let target ← target.build names
    let indices ← buildListing names indices
    return .token (← Build.index target indices)
  | conditional test ifTrue ifFalse => do
    let test ← test.build names
    let ifTrue ← ifTrue.build names
    let ifFalse ← ifFalse.build names
    return .token (← Build.conditional test ifTrue ifFalse)
  | arrow parameters body operator => do
    let body ← body.build names
    return .token (← Build.arrow parameters body operator)
  | initializer head items => do
    let head ← head.build names
    let items ← buildListing names items
    return .token (← Build.initializer head items)
  | sequence opening closing items => do
    let opening ← opening.build names
    let closing ← closing.build names
    let items ← buildListing names items
    return .token (← Build.sequence opening closing items)

/-- Follows the recipes of a list. -/
def buildListing (names : Names) : Listing Recipe → Build (Listing Arg)
  | .each recipes => do return .each (← buildAll names recipes)
  | .stray value => pure (.stray value)

/-- Follows recipes one after the other. -/
def buildAll (names : Names) : List Recipe → Build (List Arg)
  | [] => pure []
  | recipe :: recipes => do
    let first ← recipe.build names
    let rest ← buildAll names recipes
    return first :: rest

end

end Recipe

end TokenLayout
