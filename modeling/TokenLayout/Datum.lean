import TokenLayout.Text.Quoted

/-!
# Values

A token has one of six kinds. Where a token or the value of a field is expected, an
operation may be handed any other plain value instead, and it says which by the name of the
value's kind. `Datum` is such a plain value, `ValueKind` what it has in common with tokens. Plain
values can be told apart and written out.
-/

namespace TokenLayout

/-- The kinds of tokens. A `blank` token has no measurements and a `foreign` one has
measurements fixed by its maker. Only the other four can be written on a page. -/
inductive Kind where
  | leaf
  | separator
  | group
  | bracket
  | blank
  | foreign
deriving DecidableEq, Repr

/-- The name a kind goes by in messages and descriptions. -/
def Kind.name : Kind → String
  | .leaf => "LeafToken"
  | .separator => "SeparatorToken"
  | .group => "CompositeToken"
  | .bracket => "BracketedToken"
  | .blank => "Token"
  | .foreign => "OpaqueToken"

/-- A plain value. -/
inductive Datum where
  | null
  | bool (b : Bool)
  | int (n : Int)
  /-- The number `mantissa / 10 ^ places`. -/
  | real (mantissa : Int) (places : Nat)
  | text (s : String)
  | list (items : List Datum)
  /-- Values by name, in the order given. -/
  | dict (entries : List (String × Datum))
deriving Repr

/-- What kind of value something is: a plain value or a token. -/
inductive ValueKind where
  | null
  | bool
  | int
  | real
  | text
  | list
  | dict
  | token (kind : Kind)
deriving DecidableEq, Repr

/-- The name a kind of value goes by in messages. -/
def ValueKind.name : ValueKind → String
  | .null => "NoneType"
  | .bool => "bool"
  | .int => "int"
  | .real => "float"
  | .text => "str"
  | .list => "list"
  | .dict => "dict"
  | .token kind => kind.name

namespace Datum

/-- The kind of a plain value. -/
def kind : Datum → ValueKind
  | null => .null
  | bool _ => .bool
  | int _ => .int
  | real _ _ => .real
  | text _ => .text
  | list _ => .list
  | dict _ => .dict

/-- The values that count as nothing: no value, false, zero, and what is empty. -/
def isVoid : Datum → Bool
  | null => true
  | bool b => !b
  | int n => n == 0
  | real m _ => m == 0
  | text s => s.isEmpty
  | list items => items.isEmpty
  | dict entries => entries.isEmpty

/-! ## Equality -/

mutual

/-- Whether two values are the same. -/
def same : Datum → Datum → Bool
  | null, null => true
  | bool b, bool c => b == c
  | int m, int n => m == n
  | real m p, real n q => m == n && p == q
  | text s, text t => s == t
  | list xs, list ys => sameItems xs ys
  | dict xs, dict ys => sameEntries xs ys
  | _, _ => false

/-- Whether two lists have the same items. -/
def sameItems : List Datum → List Datum → Bool
  | [], [] => true
  | x :: xs, y :: ys => x.same y && sameItems xs ys
  | _, _ => false

/-- Whether two dictionaries have the same entries in the same order. -/
def sameEntries : List (String × Datum) → List (String × Datum) → Bool
  | [], [] => true
  | (name, x) :: xs, (other, y) :: ys => name == other && x.same y && sameEntries xs ys
  | _, _ => false

end

mutual

/-- `same` decides equality of values. -/
theorem same_iff : ∀ x y : Datum, x.same y = true ↔ x = y
  | null, y => by cases y <;> simp [same]
  | bool _, y => by cases y <;> simp [same]
  | int _, y => by cases y <;> simp [same]
  | real _ _, y => by cases y <;> simp [same]
  | text _, y => by cases y <;> simp [same]
  | list xs, y => by cases y <;> simp [same, sameItems_iff xs]
  | dict xs, y => by cases y <;> simp [same, sameEntries_iff xs]

/-- `sameItems` decides equality of lists. -/
theorem sameItems_iff : ∀ xs ys : List Datum, sameItems xs ys = true ↔ xs = ys
  | [], ys => by cases ys <;> simp [sameItems]
  | x :: xs, ys => by cases ys <;> simp [sameItems, same_iff x, sameItems_iff xs]

/-- `sameEntries` decides equality of dictionaries. -/
theorem sameEntries_iff : ∀ xs ys : List (String × Datum), sameEntries xs ys = true ↔ xs = ys
  | [], ys => by cases ys <;> simp [sameEntries]
  | (name, x) :: xs, ys => by
    cases ys <;> simp [sameEntries, same_iff x, sameEntries_iff xs, Prod.ext_iff]

end

instance : DecidableEq Datum :=
  fun x y => decidable_of_iff (x.same y = true) (same_iff x y)

/-! ## Wording -/

/-- The decimal text of a number with some digits after the point. -/
def decimal (mantissa : Int) (places : Nat) : String :=
  let digits := toString (mantissa.natAbs % Nat.pow 10 places)
  (if mantissa < 0 then "-" else "") ++ toString (mantissa.natAbs / Nat.pow 10 places) ++ "." ++
    String.ofList (List.replicate (places - digits.length) '0') ++ digits

mutual

/-- A value written out, with texts in quotes. -/
def shown : Datum → String
  | null => "None"
  | bool b => if b then "True" else "False"
  | int n => toString n
  | real mantissa places => decimal mantissa places
  | text s => Text.quote s
  | list items => "[" ++ String.intercalate ", " (shownItems items) ++ "]"
  | dict entries => "\x7b" ++ String.intercalate ", " (shownEntries entries) ++ "\x7d"

/-- The items of a list written out. -/
def shownItems : List Datum → List String
  | [] => []
  | item :: items => item.shown :: shownItems items

/-- The entries of a dictionary written out. -/
def shownEntries : List (String × Datum) → List String
  | [] => []
  | (name, value) :: entries =>
    (Text.quote name ++ ": " ++ value.shown) :: shownEntries entries

end

/-- A value as plain text: a text stands for itself, and anything else is written out. -/
def plain : Datum → String
  | text s => s
  | value => value.shown

end Datum

end TokenLayout
