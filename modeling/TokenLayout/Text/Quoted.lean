import TokenLayout.Text.Printable

/-!
# Quoted text

A text in quotation marks, on one line and in printable characters only. The mark is the
apostrophe, unless the text has one and no double quote. Inside, the mark and the backslash
follow a backslash, tab and line ends have a letter each, and any other unprintable character
is written by its code point in two, four or eight hexadecimal digits.
-/

namespace TokenLayout.Text

/-- The last `width` hexadecimal digits of `n`, in lower case. -/
def hexDigits : (width : Nat) → (n : Nat) → List Char
  | 0, _ => []
  | width + 1, n => hexDigits width (n / 16) ++ [Nat.digitChar (n % 16)]

/-- A character as it stands between two marks `mark`. -/
def escape (mark c : Char) : List Char :=
  if c = mark ∨ c = '\\' then ['\\', c]
  else if c = '\t' then ['\\', 't']
  else if c = '\n' then ['\\', 'n']
  else if c = '\r' then ['\\', 'r']
  else if isPrintable c then [c]
  else if c.toNat < 0x100 then '\\' :: 'x' :: hexDigits 2 c.toNat
  else if c.toNat < 0x10000 then '\\' :: 'u' :: hexDigits 4 c.toNat
  else '\\' :: 'U' :: hexDigits 8 c.toNat

/-- The mark that `cs` is quoted with. -/
def quoteMark (cs : List Char) : Char :=
  if '\'' ∈ cs ∧ '"' ∉ cs then '"' else '\''

/-- The characters of a quoted text, its marks included. -/
def quoteChars (cs : List Char) : List Char :=
  quoteMark cs :: (cs.flatMap (escape (quoteMark cs)) ++ [quoteMark cs])

/-- A text in quotation marks. -/
def quote (s : String) : String :=
  String.ofList (quoteChars s.toList)

end TokenLayout.Text
