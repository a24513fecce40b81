/-!
# Measurements remembered

A group of tokens is measured once. `Memo` has two cells for each token, one for the length and
one for the decision whether the token takes several lines, and each is empty until it is
filled.
-/

namespace TokenLayout

/-- Tokens are told apart by their number. -/
abbrev TokenId := Nat

/-- The two cells of a token. -/
structure Cells where
  length : Option Int := none
  multiline : Option Bool := none
deriving DecidableEq, Repr

/-- A token is measured once one of its cells is filled. -/
def Cells.measured (cells : Cells) : Bool :=
  cells.length.isSome || cells.multiline.isSome

/-- The cells of all tokens. Those past the end of the array are empty. -/
structure Memo where
  cells : Array Cells := #[]
deriving DecidableEq, Repr

namespace Memo

/-- The cells of a token. -/
def get (memo : Memo) (id : TokenId) : Cells :=
  memo.cells.getD id {}

/-- Changes the cells of a token. -/
def set (memo : Memo) (id : TokenId) (cells : Cells) : Memo :=
  let padding := Array.replicate (id + 1 - memo.cells.size) ({} : Cells)
  ⟨(memo.cells ++ padding).setIfInBounds id cells⟩

/-- Fills the length cell of a token. -/
def fillLength (memo : Memo) (id : TokenId) (n : Int) : Memo :=
  memo.set id { memo.get id with length := some n }

/-- Fills the decision cell of a token. -/
def fillMultiline (memo : Memo) (id : TokenId) (b : Bool) : Memo :=
  memo.set id { memo.get id with multiline := some b }

theorem get_set (memo : Memo) (id other : TokenId) (cells : Cells) :
    (memo.set id cells).get other = if id = other then cells else memo.get other := by
  simp only [get, set, Array.getD_eq_getD_getElem?, Array.getElem?_setIfInBounds,
    Array.size_append, Array.size_replicate]
  by_cases h : id = other
  · simp only [h, if_true]
    rw [if_pos (by omega)]
    rfl
  · simp only [h, if_false, Array.getElem?_append, Array.getElem?_replicate]
    by_cases hlt : other < memo.cells.size
    · simp [hlt]
    · simp only [hlt, if_false]
      rw [Array.getElem?_eq_none (Nat.not_lt.mp hlt)]
      split <;> rfl

end Memo

end TokenLayout
