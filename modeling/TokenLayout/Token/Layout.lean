import TokenLayout.Page
import TokenLayout.Token.Measure

/-!
# Laying out tokens

A token is written by strokes, which ask a page for texts and new lines. Which strokes they are
depends on the token, on its measurements, and on whether the page is on a fresh line when the
token comes to it, but on nothing else about the page. `Layout` is a computation of strokes and
`Token.write` the layout of a token at a level.

A group on several lines starts a line with each breakable part. A bracket whose body takes
several lines sets it one level deeper and closes on a line of its own, at the level its opening
was written at. If the page is on a fresh line already, that line is set deeper instead of a second
one being started.
-/

namespace TokenLayout

/-- What came of a layout: the strokes it asked for, the memo it left, and its result or what
stopped it. -/
structure Draft (α : Type) where
  strokes : List Stroke
  memo : Memo
  result : Except Fault α

/-- A computation of strokes, given whether the page is on a fresh line. -/
structure Layout (α : Type) where
  run : (fresh : Bool) → Memo → Draft α

namespace Layout

variable {α β : Type}

instance : Monad Layout where
  pure a := ⟨fun _ memo => ⟨[], memo, .ok a⟩⟩
  bind x f := ⟨fun fresh memo =>
    match x.run fresh memo with
    | ⟨strokes, memo, .ok a⟩ =>
      let rest := (f a).run (Stroke.freshAfterAll fresh strokes) memo
      ⟨strokes ++ rest.strokes, rest.memo, rest.result⟩
    | ⟨strokes, memo, .error fault⟩ => ⟨strokes, memo, .error fault⟩⟩

@[simp] theorem run_pure (a : α) (fresh : Bool) (memo : Memo) :
    (pure a : Layout α).run fresh memo = ⟨[], memo, .ok a⟩ :=
  rfl

theorem run_bind (x : Layout α) (f : α → Layout β) (fresh : Bool) (memo : Memo) :
    (x >>= f).run fresh memo =
      match x.run fresh memo with
      | ⟨strokes, memo, .ok a⟩ =>
        let rest := (f a).run (Stroke.freshAfterAll fresh strokes) memo
        ⟨strokes ++ rest.strokes, rest.memo, rest.result⟩
      | ⟨strokes, memo, .error fault⟩ => ⟨strokes, memo, .error fault⟩ :=
  rfl

/-- Stops. -/
def fail (fault : Fault) : Layout α :=
  ⟨fun _ memo => ⟨[], memo, .error fault⟩⟩

/-- Whether the page is on a fresh line. -/
def onFreshLine : Layout Bool :=
  ⟨fun fresh memo => ⟨[], memo, .ok fresh⟩⟩

/-- Asks for a text. -/
def text (s : String) : Layout Unit :=
  ⟨fun _ memo => ⟨[.text s], memo, .ok ()⟩⟩

/-- Asks for a new line at `level`, which must not be negative. -/
def newline (level : Int) : Layout Unit :=
  if level < 0 then fail (.negativeLevel level)
  else ⟨fun _ memo => ⟨[.newline level.toNat], memo, .ok ()⟩⟩

/-- Asks for something on a condition. -/
def when (condition : Bool) (x : Layout Unit) : Layout Unit :=
  if condition then x else pure ()

/-- Takes a measurement. -/
def reading (x : Reading α) : Layout α :=
  ⟨fun _ memo =>
    match x.run memo with
    | (some a, memo) => ⟨[], memo, .ok a⟩
    | (none, memo) => ⟨[], memo, .error .unmeasurable⟩⟩

@[simp] theorem run_fail (fault : Fault) (fresh : Bool) (memo : Memo) :
    (fail fault : Layout α).run fresh memo = ⟨[], memo, .error fault⟩ :=
  rfl

@[simp] theorem run_onFreshLine (fresh : Bool) (memo : Memo) :
    onFreshLine.run fresh memo = ⟨[], memo, .ok fresh⟩ :=
  rfl

@[simp] theorem run_text (s : String) (fresh : Bool) (memo : Memo) :
    (text s).run fresh memo = ⟨[.text s], memo, .ok ()⟩ :=
  rfl

@[simp] theorem run_newline (level : Nat) (fresh : Bool) (memo : Memo) :
    (newline level).run fresh memo = ⟨[.newline level], memo, .ok ()⟩ := by
  have h : ¬ (level : Int) < 0 := by omega
  simp [newline, h]

end Layout

namespace Token

mutual

/-- The layout of a token at `level`. -/
def write (limits : Thresholds) : Token → (level : Int) → Layout Unit
  | leaf _ _ text, _ => .text text
  | group tag commas forced parts, level => do
    let broken ← Layout.reading ((group tag commas forced parts).readMultiline limits)
    writeParts limits commas broken true parts level
  | bracket _ frame body, level =>
    if frame.ownLine then do
      Layout.newline level
      Layout.text frame.opening
      let broken ← Layout.reading (body.readMultiline limits)
      let inner := if broken then level + 1 else level
      Layout.newline inner
      body.write limits (inner + body.tag.inset)
      Layout.when broken (Layout.newline level)
      Layout.text frame.closing
    else do
      let bare := frame.bare body
      let fresh ← Layout.onFreshLine
      let broken ← Layout.reading (body.readMultiline limits)
      let inner := if broken then level + 1 else level
      Layout.when fresh (Layout.newline inner)
      Layout.when (!bare) (Layout.text frame.opening)
      body.write limits (inner + body.tag.inset)
      Layout.when broken (Layout.newline (if bare then level else inner))
      Layout.when (!bare) (Layout.text frame.closing)
  | blank _, _ => .fail (.unwritable (.token .blank))
  | foreign .., _ => .fail (.unwritable (.token .foreign))

/-- The layout of the parts of a group at `level`, the first of them or those after it. -/
def writeParts (limits : Thresholds) (commas broken : Bool) :
    (first : Bool) → List Token → (level : Int) → Layout Unit
  | _, [], _ => pure ()
  | first, part :: parts, level => do
    let inner := level + part.tag.inset
    Layout.when (commas && !first) (Layout.text separatorText)
    Layout.when (broken && part.tag.breakable) (Layout.newline inner)
    part.write limits inner
    writeParts limits commas broken false parts level

end

end Token

/-- Writes a token on a page at `level`. What was written before a fault stays on the page. -/
def Page.write (page : Page) (limits : Thresholds) (token : Token) (level : Int) (memo : Memo) :
    Page × Draft Unit :=
  let draft := (token.write limits level).run page.fresh memo
  (page.applyAll draft.strokes, draft)

end TokenLayout
