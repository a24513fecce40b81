import TokenLayout.Fault

/-!
# Pages

A page takes texts and line breaks. It pads lines lazily: after a break the padding of the new
line is owed until a text arrives, and a break asked for meanwhile only changes how much is
owed. So breaks never stack up to blank lines, and the last one decides the level of the line.

`Stroke` is what can be asked of a page, `Page.apply` does it, and `Page.build` is the text of
the page.
-/

namespace TokenLayout

/-- What can be asked of a page: a text at the end of the current line, or a new line at a
level. -/
inductive Stroke where
  | text (s : String)
  | newline (level : Nat)
deriving DecidableEq, Repr

namespace Stroke

/-- Whether the page is on a fresh line after a stroke, given whether it was before. A text that
is empty changes nothing. -/
def freshAfter (fresh : Bool) : Stroke → Bool
  | text s => fresh && s.isEmpty
  | newline _ => true

/-- Whether the page is on a fresh line after some strokes. -/
def freshAfterAll (fresh : Bool) (strokes : List Stroke) : Bool :=
  strokes.foldl freshAfter fresh

end Stroke

/-- A run of spaces, none if the number is negative. -/
def spaces (n : Int) : String :=
  String.ofList (List.replicate n.toNat ' ')

/-- A page. The width may be negative, which pads nothing. -/
structure Page where
  /-- Spaces per level. -/
  width : Int := 3
  /-- What ends a line. -/
  terminator : String := "\r\n"
  /-- The texts put on the page so far, terminators and padding among them. -/
  parts : Array String := #[]
  /-- The padding owed to a line that has no text yet, if the page is on one. -/
  owed : Option Int := none
deriving DecidableEq, Repr

namespace Page

/-- The last thing asked of the page was a break, with no text after it. -/
def fresh (page : Page) : Bool :=
  page.owed.isSome

/-- The padding owed is put on the page, as a part of its own unless it is zero. -/
def settle (page : Page) : Page :=
  match page.owed with
  | none => page
  | some 0 => { page with owed := none }
  | some n => { page with parts := page.parts.push (spaces n), owed := none }

/-- Puts a text at the end of the current line. An empty text leaves the page as it is. -/
def append (page : Page) (s : String) : Page :=
  if s.isEmpty then page
  else { page.settle with parts := page.settle.parts.push s }

/-- Goes to the start of a line at `level`. The terminator is written unless the page is on a
fresh line already. -/
def startLine (page : Page) (level : Nat) : Page :=
  { page with
    parts := if page.fresh then page.parts else page.parts.push page.terminator
    owed := some (level * page.width) }

/-- Does what a stroke asks for. -/
def apply (page : Page) : Stroke → Page
  | .text s => page.append s
  | .newline level => page.startLine level

/-- Does what some strokes ask for, one after the other. -/
def applyAll (page : Page) (strokes : List Stroke) : Page :=
  strokes.foldl apply page

/-- Goes to the start of a line at `level`, which must not be negative. -/
def newline (page : Page) (level : Int) : Except Fault Page :=
  if level < 0 then .error (.negativeLevel level) else .ok (page.startLine level.toNat)

/-- An empty page of the same width and terminator. -/
def clear (page : Page) : Page :=
  { page with parts := #[], owed := none }

/-- The text of the page, with the padding owed to its last line. -/
def build (page : Page) : String :=
  String.join page.parts.toList ++ spaces (page.owed.getD 0)

/-! ## Freshness -/

@[simp] theorem fresh_settle (page : Page) : page.settle.fresh = false := by
  unfold settle
  split <;> simp_all [fresh]

theorem fresh_apply (page : Page) (stroke : Stroke) :
    (page.apply stroke).fresh = stroke.freshAfter page.fresh := by
  cases stroke with
  | text s =>
    by_cases hs : s.isEmpty
    · simp [apply, append, Stroke.freshAfter, hs]
    · have h := fresh_settle page
      simp only [fresh] at h
      simp [apply, append, Stroke.freshAfter, fresh, hs, h]
  | newline level => simp [apply, startLine, Stroke.freshAfter, fresh]

/-- The strokes alone say whether the page is on a fresh line after them. -/
theorem fresh_applyAll (page : Page) (strokes : List Stroke) :
    (page.applyAll strokes).fresh = Stroke.freshAfterAll page.fresh strokes := by
  induction strokes generalizing page with
  | nil => rfl
  | cons stroke strokes ih =>
    simp only [applyAll, Stroke.freshAfterAll, List.foldl_cons] at ih ⊢
    rw [ih, fresh_apply]

end Page

end TokenLayout
