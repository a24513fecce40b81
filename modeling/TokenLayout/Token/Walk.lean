import TokenLayout.Token.Basic

/-!
# Walking a tree

`Token.walk` lists the tokens of a tree, every token before those below it. It keeps the tokens
still to visit on a stack instead of calling itself, so the depth of the tree does not matter.
`Token.preorder` is the same order by recursion on the tree.
-/

namespace TokenLayout.Token

mutual

/-- The number of tokens in a tree. -/
def size : Token → Nat
  | leaf .. => 1
  | group _ _ _ parts => sizes parts + 1
  | bracket _ _ body => body.size + 1
  | blank _ => 1
  | foreign .. => 1

/-- The number of tokens in some trees. -/
def sizes : List Token → Nat
  | [] => 0
  | token :: tokens => token.size + sizes tokens

end

theorem sizes_append (ts us : List Token) : sizes (ts ++ us) = sizes ts + sizes us := by
  induction ts with
  | nil => simp [sizes]
  | cons t ts ih => simp [sizes, ih, Nat.add_assoc]

theorem size_eq (t : Token) : t.size = sizes t.children + 1 := by
  cases t <;> simp [size, sizes, children]

theorem size_le_sizes {t : Token} {ts : List Token} (h : t ∈ ts) : t.size ≤ sizes ts := by
  induction ts with
  | nil => simp at h
  | cons u ts ih =>
    rw [sizes]
    rcases List.mem_cons.1 h with rfl | h
    · omega
    · have := ih h
      omega

/-- A property holds of every token if it passes to a token from those right below it. -/
theorem children_induction {motive : Token → Prop}
    (step : ∀ t, (∀ c ∈ t.children, motive c) → motive t) (t : Token) : motive t :=
  step t fun c hc =>
    have : c.size < t.size := by
      have := size_le_sizes hc
      rw [size_eq t]
      omega
    children_induction step c
termination_by t.size

/-- The tokens of the trees on a stack, whose top comes first. -/
def walkStack : List Token → List Token
  | [] => []
  | token :: stack => token :: walkStack (token.children ++ stack)
termination_by stack => sizes stack
decreasing_by
  rw [sizes_append, sizes, size_eq]
  omega

/-- The tokens of a tree, every token before those below it. -/
def walk (token : Token) : List Token :=
  walkStack [token]

mutual

/-- The token, then the tokens below it, child by child. -/
def preorder : Token → List Token
  | leaf tag role text => [leaf tag role text]
  | group tag commas forced parts => group tag commas forced parts :: preorders parts
  | bracket tag frame body => bracket tag frame body :: body.preorder
  | blank tag => [blank tag]
  | foreign tag length multiline => [foreign tag length multiline]

/-- The tokens of some trees, tree by tree. -/
def preorders : List Token → List Token
  | [] => []
  | token :: tokens => token.preorder ++ preorders tokens

end

end TokenLayout.Token
