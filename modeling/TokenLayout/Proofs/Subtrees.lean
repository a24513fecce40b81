import TokenLayout.Token.Walk

/-!
# The tokens of a tree

`Token.Every P` says that `P` holds of every token of a tree. It is a condition on the root and the
same condition on the trees right below it, so a proof by recursion on the tree can take it apart.
-/

namespace TokenLayout.Token

/-- The tokens of some trees are those of each of them. -/
theorem mem_preorders {t : Token} {ts : List Token} :
    t ∈ preorders ts ↔ ∃ u ∈ ts, t ∈ u.preorder := by
  induction ts with
  | nil => simp [preorders]
  | cons u ts ih => simp [preorders, ih]

/-- The tokens of a tree are its root and those of the trees right below it. -/
theorem mem_preorder_iff {t u : Token} :
    u ∈ t.preorder ↔ u = t ∨ ∃ c ∈ t.children, u ∈ c.preorder := by
  cases t <;> simp [preorder, children, mem_preorders]

theorem mem_preorder_self (t : Token) : t ∈ t.preorder :=
  mem_preorder_iff.2 (Or.inl rfl)

/-- What stands in a tree that stands in another one stands in that one too. -/
theorem mem_preorder_trans {t u v : Token} (hu : u ∈ t.preorder) (hv : v ∈ u.preorder) :
    v ∈ t.preorder := by
  induction t using children_induction with
  | step t ih =>
    rcases mem_preorder_iff.1 hu with rfl | ⟨c, hc, hu⟩
    · exact hv
    · exact mem_preorder_iff.2 (Or.inr ⟨c, hc, ih c hc hu⟩)

theorem preorder_eq (t : Token) : t.preorder = t :: preorders t.children := by
  cases t <;> simp [preorder, children, preorders]

theorem preorders_append (ts us : List Token) :
    preorders (ts ++ us) = preorders ts ++ preorders us := by
  induction ts with
  | nil => simp [preorders]
  | cons t ts ih => simp [preorders, ih]

/-- The stack holds the trees that are still to be listed. -/
theorem walkStack_eq_preorders (stack : List Token) : walkStack stack = preorders stack := by
  induction stack using walkStack.induct with
  | case1 => simp [walkStack, preorders]
  | case2 token stack ih =>
    rw [walkStack, ih, preorders_append, preorders, preorder_eq, List.cons_append]

/-- The walk lists a tree from its root down, children in order. -/
theorem walk_eq_preorder (t : Token) : t.walk = t.preorder := by
  simp [walk, walkStack_eq_preorders, preorders]

/-- `P` holds of every token of the tree. -/
def Every (P : Token → Prop) (token : Token) : Prop :=
  ∀ t ∈ token.preorder, P t

variable {P : Token → Prop}

instance [DecidablePred P] : DecidablePred (Every P) :=
  fun token => inferInstanceAs (Decidable (∀ t ∈ token.preorder, P t))

/-- A condition on all tokens is one on the root and one on all tokens of each child. -/
theorem every_iff {t : Token} : t.Every P ↔ P t ∧ ∀ c ∈ t.children, c.Every P := by
  simp only [Every, mem_preorder_iff (t := t), forall_eq_or_imp]
  refine and_congr Iff.rfl ⟨fun h c hc u hu => h u ⟨c, hc, hu⟩, ?_⟩
  rintro h u ⟨c, hc, hu⟩
  exact h c hc u hu

theorem Every.root {t : Token} (h : t.Every P) : P t :=
  h t t.mem_preorder_self

/-- A condition on all tokens of a tree is one on all tokens of the trees in it. -/
theorem Every.below {t u : Token} (h : t.Every P) (hu : u ∈ t.preorder) : u.Every P :=
  fun v hv => h v (mem_preorder_trans hu hv)

theorem Every.part {tag : Tag} {commas : Bool} {forced : Option Bool} {parts : List Token}
    (h : (group tag commas forced parts).Every P) {part : Token} (hp : part ∈ parts) :
    part.Every P :=
  (every_iff.1 h).2 part hp

theorem Every.body {tag : Tag} {frame : Frame} {body : Token}
    (h : (bracket tag frame body).Every P) : body.Every P :=
  (every_iff.1 h).2 body (List.mem_singleton_self body)

/-! ## Other tags -/

mutual

/-- The tree with every tag in it changed by `f`. -/
def mapTag (f : Tag → Tag) : Token → Token
  | leaf tag role text => leaf (f tag) role text
  | group tag commas forced parts => group (f tag) commas forced (mapTags f parts)
  | bracket tag frame body => bracket (f tag) frame (body.mapTag f)
  | blank tag => blank (f tag)
  | foreign tag length multiline => foreign (f tag) length multiline

/-- The trees with every tag in them changed by `f`. -/
def mapTags (f : Tag → Tag) : List Token → List Token
  | [] => []
  | token :: tokens => token.mapTag f :: mapTags f tokens

end

/-- Each tree of a list is changed on its own. -/
theorem mapTags_eq_map (f : Tag → Tag) (ts : List Token) : mapTags f ts = ts.map (mapTag f) := by
  induction ts with
  | nil => rfl
  | cons t ts ih => rw [mapTags, ih, List.map_cons]

/-- Changing all tags twice is changing them once. -/
theorem mapTag_mapTag (f g : Tag → Tag) (t : Token) :
    (t.mapTag f).mapTag g = t.mapTag fun tag => g (f tag) := by
  induction t using children_induction with
  | step t ih =>
    cases t with
    | group tag commas forced parts =>
      simp only [mapTag, mapTags_eq_map, List.map_map]
      exact congrArg _ (List.map_congr_left ih)
    | bracket tag frame body => simp only [mapTag, ih body (List.mem_singleton_self body)]
    | _ => rfl

theorem tag_mapTag (f : Tag → Tag) (t : Token) : (t.mapTag f).tag = f t.tag := by
  cases t <;> rfl

/-- The kind of a token does not depend on its tag. -/
theorem kind_mapTag (f : Tag → Tag) (t : Token) : (t.mapTag f).kind = t.kind := by
  cases t <;> rfl

/-- Whether a tree is a single element does not depend on its tags. -/
theorem isSingle_mapTag (f : Tag → Tag) (t : Token) : (t.mapTag f).isSingle = t.isSingle := by
  cases t <;> simp [mapTag, isSingle, mapTags_eq_map]

/-- The children are those of the tree as it was, changed in the same way. -/
theorem children_mapTag (f : Tag → Tag) (t : Token) :
    (t.mapTag f).children = t.children.map (mapTag f) := by
  cases t <;> simp [mapTag, children, mapTags_eq_map]

/-- A condition on the changed tree is one on the tree as it was, read through the change. -/
theorem every_mapTag (f : Tag → Tag) (t : Token) :
    (t.mapTag f).Every P ↔ t.Every fun u => P (u.mapTag f) := by
  induction t using children_induction with
  | step t ih =>
    rw [every_iff, every_iff, children_mapTag, List.forall_mem_map]
    exact and_congr Iff.rfl (forall₂_congr ih)

end TokenLayout.Token

namespace TokenLayout

/-- The marks of a token without its number. -/
def Tag.unnumbered (tag : Tag) : Tag :=
  { tag with id := 0 }

/-- The tree without the numbers of its tokens: all that its structure is. -/
def Token.anonymous (token : Token) : Token :=
  token.mapTag Tag.unnumbered

end TokenLayout
