import TokenLayout.Fault

/-!
# Log channels

What is logged goes to a channel, and every channel has a name below the library's own.
-/

namespace TokenLayout.LogChannel

/-- The name of the library's top channel. -/
def root : String :=
  "sangria"

/-- The full name of a channel. A name outside the library's is put below it. -/
def qualify (name : String) : String :=
  if name = root ∨ name.startsWith (root ++ ".") then name else root ++ "." ++ name

/-- The full name of the channel asked for, which must be asked for by a text. -/
def named : Datum → Except Fault String
  | .text name => .ok (qualify name)
  | value => .error (.noAttribute value.kind "startswith")

end TokenLayout.LogChannel
