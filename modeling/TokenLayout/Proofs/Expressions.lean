import TokenLayout.Proofs.Faithful
import TokenLayout.Proofs.Influence
import TokenLayout.Proofs.Spelling
import TokenLayout.Recipe

/-!
# Shapes spell their expressions

An `Expression` is a nesting of shapes over texts, and `Expression.spelled` is how it is written on
one line. Its tree is put together from the trees of its parts (`Expression.tree`), and this tree
spells it (`Expression.flat_tree`). By recursion on the expression it is the tree that is built, at
any depth and without a fault (`Expression.grows_recipe`), so that under every layout an expression
is its one-line text with breaks put in.
-/

namespace TokenLayout

/-! ## Expressions on one line -/

/-- An expression in one of the usual forms. Items of a list may be missing, and so may the head of
an initializer. -/
inductive Expression where
  | text (s : String)
  | binary (left : Expression) (operator : String) (right : Expression)
  | prefixed (operator : String) (operand : Expression)
  | call (callee : Expression) (args : List (Option Expression))
  | methodCall (target : Expression) (name : String) (args : List (Option Expression))
  | member (target : Expression) (name : String)
  | index (target : Expression) (indices : List (Option Expression))
  | conditional (test ifTrue ifFalse : Expression)
  | arrow (parameters : String) (body : Expression) (operator : String)
  | initializer (head : Option Expression) (items : List (Option Expression))
  | sequence (opening closing : String) (items : List (Option Expression))

namespace Expression

/-- A plain text, which is no shape of its own. -/
def isText : Expression → Bool
  | text _ => true
  | _ => false

/-- A text is a leaf, a binary expression and a sequence stand in brackets, and an initializer
without a head has its block for its only part. All other shapes have several parts. -/
def isSingle : Expression → Bool
  | text _ => true
  | binary .. => true
  | sequence .. => true
  | initializer none _ => true
  | _ => false

/-- Items in a row, without those that are missing. -/
def listed (items : List (Option String)) : String :=
  String.intercalate ", " items.reduceOption

mutual

/-- An expression on one line. -/
def spelled : Expression → String
  | text s => s
  | binary left operator right =>
    "(" ++ left.spelled ++ " " ++ operator ++ " " ++ right.spelled ++ ")"
  | prefixed operator operand =>
    operator ++ if operand.isSingle then operand.spelled else "(" ++ operand.spelled ++ ")"
  | call callee args => callee.spelled ++ "(" ++ listed (spelledAll args) ++ ")"
  | methodCall target name args =>
    target.spelled ++ "." ++ name ++ "(" ++ listed (spelledAll args) ++ ")"
  | member target name => target.spelled ++ "." ++ name
  | index target indices => target.spelled ++ "[" ++ listed (spelledAll indices) ++ "]"
  | conditional test ifTrue ifFalse =>
    test.spelled ++ " ? " ++ ifTrue.spelled ++ " : " ++ ifFalse.spelled
  | arrow parameters body operator => parameters ++ operator ++ body.spelled
  | initializer head items =>
    (spelledOptional head).getD "" ++ "\x7b" ++ listed (spelledAll items) ++ "\x7d"
  | sequence opening closing items => opening ++ listed (spelledAll items) ++ closing

/-- An expression on one line, if there is one. -/
def spelledOptional : Option Expression → Option String
  | none => none
  | some e => some e.spelled

/-- Expressions on one line each. -/
def spelledAll : List (Option Expression) → List (Option String)
  | [] => []
  | item :: items => spelledOptional item :: spelledAll items

end

mutual

/-- How an expression is built. -/
def recipe : Expression → Recipe
  | text s => .datum (.text s)
  | binary left operator right => .binary left.recipe operator right.recipe
  | prefixed operator operand => .prefixed operator operand.recipe
  | call callee args => .call callee.recipe (.each (recipes args))
  | methodCall target name args => .methodCall target.recipe name (.each (recipes args))
  | member target name => .member target.recipe name
  | index target indices => .index target.recipe (.each (recipes indices))
  | conditional test ifTrue ifFalse => .conditional test.recipe ifTrue.recipe ifFalse.recipe
  | arrow parameters body operator => .arrow (.text parameters) body.recipe (.text operator)
  | initializer head items => .initializer (optionalRecipe head) (.each (recipes items))
  | sequence opening closing items =>
    .sequence (.datum (.text opening)) (.datum (.text closing)) (.each (recipes items))

/-- How an expression is built, or no value if it is missing. -/
def optionalRecipe : Option Expression → Recipe
  | none => .datum .null
  | some e => e.recipe

/-- How the items of a list are built. -/
def recipes : List (Option Expression) → List Recipe
  | [] => []
  | item :: items => optionalRecipe item :: recipes items

end

/-- The expressions right below an expression. -/
def parts : Expression → List Expression
  | text _ => []
  | binary left _ right => [left, right]
  | prefixed _ operand => [operand]
  | call callee args => callee :: args.reduceOption
  | methodCall target _ args => target :: args.reduceOption
  | member target _ => [target]
  | index target indices => target :: indices.reduceOption
  | conditional test ifTrue ifFalse => [test, ifTrue, ifFalse]
  | arrow _ body _ => [body]
  | initializer head items => head.toList ++ items.reduceOption
  | sequence _ _ items => items.reduceOption

/-- An expression stands at some depth in another one. -/
def Within : Expression → Expression → Prop :=
  Relation.ReflTransGen fun part whole => part ∈ whole.parts

theorem spelledOptional_eq (item : Option Expression) :
    spelledOptional item = item.map spelled := by
  cases item <;> rfl

theorem spelledAll_eq (items : List (Option Expression)) :
    spelledAll items = items.map (Option.map spelled) := by
  induction items with
  | nil => rfl
  | cons item items ih => rw [spelledAll, ih, spelledOptional_eq, List.map_cons]

/-- Each of some texts stands in the row of them. -/
theorem infix_intercalate {s sep : String} {texts : List String} (h : s ∈ texts) :
    s.toList <:+: (String.intercalate sep texts).toList := by
  induction texts with
  | nil => exact absurd h List.not_mem_nil
  | cons t texts ih =>
    cases texts with
    | nil =>
      rw [List.mem_singleton.1 h, String.intercalate_singleton]
    | cons u texts =>
      rw [String.intercalate_cons_cons, String.toList_append, String.toList_append]
      rcases List.mem_cons.1 h with rfl | h
      · exact List.infix_append_of_infix_left List.infix_append_left
      · exact List.infix_append_of_infix_right (ih h)

/-- An item that is there stands in the row of the items. -/
theorem infix_listed {part : Expression} {items : List (Option Expression)}
    (h : part ∈ items.reduceOption) :
    part.spelled.toList <:+: (listed (spelledAll items)).toList := by
  rw [listed, spelledAll_eq, List.reduceOption_map]
  exact infix_intercalate (List.mem_map_of_mem h)

/-- Each part of an expression is spelled out in it. -/
theorem infix_spelled_of_mem_parts {part whole : Expression} (h : part ∈ whole.parts) :
    part.spelled.toList <:+: whole.spelled.toList := by
  have hleft : ∀ {a b c : List Char}, a <:+: b → a <:+: b ++ c :=
    List.infix_append_of_infix_left
  have hright : ∀ {a b c : List Char}, a <:+: c → a <:+: b ++ c :=
    List.infix_append_of_infix_right
  cases whole <;> simp only [parts, List.mem_cons, List.mem_append, List.not_mem_nil, or_false,
    Option.mem_toList] at h <;> simp only [spelled, String.toList_append]
  case binary left operator right => rcases h with rfl | rfl <;> grind
  case prefixed operator operand =>
    subst h
    refine hright ?_
    split_ifs
    · exact List.infix_rfl
    · rw [String.toList_append, String.toList_append]
      exact hleft (hright List.infix_rfl)
  case call callee args =>
    rcases h with rfl | h
    · grind
    · exact hleft (hright (infix_listed h))
  case methodCall target name args =>
    rcases h with rfl | h
    · grind
    · exact hleft (hright (infix_listed h))
  case member target name => exact h ▸ hleft List.infix_append_left
  case index target indices =>
    rcases h with rfl | h
    · grind
    · exact hleft (hright (infix_listed h))
  case conditional test ifTrue ifFalse => rcases h with rfl | rfl | rfl <;> grind
  case arrow parameters body operator => exact h ▸ List.infix_append_right
  case initializer head items =>
    rcases h with h | h
    · rw [spelledOptional_eq, h]
      grind
    · exact hleft (hright (infix_listed h))
  case sequence opening closing items => exact hleft (hright (infix_listed h))

/-- Whatever stands in an expression is spelled out in full where it stands. -/
theorem Within.infix_spelled {part whole : Expression} (h : part.Within whole) :
    part.spelled.toList <:+: whole.spelled.toList := by
  induction h with
  | refl => exact List.infix_rfl
  | tail _ hmem ih => exact ih.trans (infix_spelled_of_mem_parts hmem)

end Expression

/-! ## Shapes on one line -/

namespace Tracking

section Flat

variable (T : Tracking)

/-- Parts in a row spell what each of them spells, one after the other. -/
theorem flat_rowTree (parts : List Token) :
    (T.rowTree parts).flat = String.join (parts.map Token.flat) := by
  rw [rowTree, Token.flat, Token.flats_eq_joined]
  rfl

theorem flat_wordTree (text : String) (marks : Marks) : (T.wordTree text marks).flat = text :=
  rfl

/-- Brackets that are always written. -/
theorem flat_sequenceTree (opening closing : String) (items : Token) :
    (T.sequenceTree opening closing items).flat = opening ++ items.flat ++ closing :=
  rfl

/-- A binary expression always has its parentheses. -/
theorem flat_binaryTree (left : Token) (operator : String) (right : Token) :
    (T.binaryTree left operator right).flat =
      "(" ++ left.flat ++ " " ++ operator ++ " " ++ right.flat ++ ")" := by
  -- Three parts are no single element, so the parentheses stay.
  have hbrackets : (T.binaryTree left operator right).flat =
      "(" ++ (T.rowTree [left, T.wordTree (" " ++ operator ++ " "), right]).flat ++ ")" := rfl
  rw [hbrackets, flat_rowTree]
  simp [flat_wordTree, String.append_assoc]

/-- The operand has parentheses unless it is a single element. -/
theorem flat_prefixedTree (operator : String) (operand : Token) :
    (T.prefixedTree operator operand).flat =
      operator ++ if operand.isSingle then operand.flat else "(" ++ operand.flat ++ ")" := by
  rw [prefixedTree, flat_rowTree]
  simp [flat_wordTree, Token.flat, Frame.bare]

theorem flat_appliedTree (opening closing : String) (target items : Token) :
    (T.appliedTree opening closing target items).flat =
      target.flat ++ opening ++ items.flat ++ closing := by
  rw [appliedTree, flat_rowTree]
  simp [flat_sequenceTree, String.append_assoc]

theorem flat_memberTree (target : Token) (name : String) :
    (T.memberTree target name).flat = target.flat ++ "." ++ name := by
  rw [memberTree, flat_rowTree]
  simp [memberNameTree, flat_wordTree, String.append_assoc]

theorem flat_methodCallTree (target : Token) (name : String) (items : Token) :
    (T.methodCallTree target name items).flat =
      target.flat ++ "." ++ name ++ "(" ++ items.flat ++ ")" := by
  rw [methodCallTree, flat_rowTree]
  simp [memberNameTree, flat_wordTree, flat_sequenceTree, String.append_assoc]

theorem flat_conditionalTree (test ifTrue ifFalse : Token) :
    (T.conditionalTree test ifTrue ifFalse).flat =
      test.flat ++ " ? " ++ ifTrue.flat ++ " : " ++ ifFalse.flat := by
  rw [conditionalTree, flat_rowTree]
  simp [flat_wordTree, String.append_assoc]

theorem flat_arrowTree (parameters : String) (body : Token) (operator : String) :
    (T.arrowTree parameters body operator).flat = parameters ++ operator ++ body.flat := by
  rw [arrowTree, flat_rowTree]
  simp [flat_wordTree, String.append_assoc]

/-- A missing head spells nothing. -/
theorem flat_initializerTree (head : Option Token) (items : Token) :
    (T.initializerTree head items).flat =
      (head.map Token.flat).getD "" ++ "\x7b" ++ items.flat ++ "\x7d" := by
  have hblock : (T.blockTree items).flat = "\x7b" ++ items.flat ++ "\x7d" := rfl
  rw [initializerTree, flat_rowTree]
  cases head <;> simp [hblock, String.append_assoc]

end Flat

/-- Items that are missing leave no comma behind. -/
theorem flat_listTree (forced : Option Bool) (items : List (Option Token)) :
    (listTree forced items).flat = Expression.listed (items.map (Option.map Token.flat)) := by
  rw [listTree, Token.flat, Token.flats_eq_joined, Expression.listed, List.reduceOption_map]
  rfl

end Tracking

/-! ## Trees of expressions -/

namespace Expression

open Tracking

mutual

/-- The content of the tree that an expression is built to. -/
def tree : Expression → Token
  | text s => content.wordTree s
  | binary left operator right => content.binaryTree left.tree operator right.tree
  | prefixed operator operand => content.prefixedTree operator operand.tree
  | call callee args => content.appliedTree "(" ")" callee.tree (listTree none (trees args))
  | methodCall target name args =>
    content.methodCallTree target.tree name (listTree none (trees args))
  | member target name => content.memberTree target.tree name
  | index target indices => content.appliedTree "[" "]" target.tree (listTree none (trees indices))
  | conditional test ifTrue ifFalse => content.conditionalTree test.tree ifTrue.tree ifFalse.tree
  | arrow parameters body operator => content.arrowTree parameters body.tree operator
  | initializer head items =>
    content.initializerTree (optionalTree head) (listTree (some true) (trees items))
  | sequence opening closing items =>
    content.sequenceTree opening closing (listTree none (trees items))

/-- The content of the tree of an expression, if there is one. -/
def optionalTree : Option Expression → Option Token
  | none => none
  | some e => some e.tree

/-- The content of the trees of the items of a list. -/
def trees : List (Option Expression) → List (Option Token)
  | [] => []
  | item :: items => optionalTree item :: trees items

end

/-- The tree is a single element if the expression is one. -/
theorem isSingle_tree (e : Expression) : e.tree.isSingle = e.isSingle := by
  cases e with
  | initializer head items => cases head <;> rfl
  | _ => rfl

mutual

/-- The tree of an expression spells it. -/
theorem flat_tree : ∀ e : Expression, e.tree.flat = e.spelled
  | text _ => rfl
  | binary left operator right => by
    rw [tree, spelled, flat_binaryTree, flat_tree left, flat_tree right]
  | prefixed operator operand => by
    rw [tree, spelled, flat_prefixedTree, isSingle_tree, flat_tree operand]
  | call callee args => by
    rw [tree, spelled, flat_appliedTree, flat_listTree, flat_tree callee, flat_trees args]
  | methodCall target name args => by
    rw [tree, spelled, flat_methodCallTree, flat_listTree, flat_tree target, flat_trees args]
  | member target name => by
    rw [tree, spelled, flat_memberTree, flat_tree target]
  | index target indices => by
    rw [tree, spelled, flat_appliedTree, flat_listTree, flat_tree target, flat_trees indices]
  | conditional test ifTrue ifFalse => by
    rw [tree, spelled, flat_conditionalTree, flat_tree test, flat_tree ifTrue, flat_tree ifFalse]
  | arrow parameters body operator => by
    rw [tree, spelled, flat_arrowTree, flat_tree body]
  | initializer head items => by
    rw [tree, spelled, flat_initializerTree, flat_listTree, flat_optionalTree head,
      flat_trees items]
  | sequence opening closing items => by
    rw [tree, spelled, flat_sequenceTree, flat_listTree, flat_trees items]

theorem flat_optionalTree :
    ∀ item : Option Expression, (optionalTree item).map Token.flat = spelledOptional item
  | none => rfl
  | some e => congrArg some (flat_tree e)

theorem flat_trees : ∀ items : List (Option Expression),
    (trees items).map (Option.map Token.flat) = spelledAll items
  | [] => rfl
  | item :: items => by
    rw [trees, List.map_cons, flat_optionalTree item, flat_trees items, spelledAll]

end

/-! ## Nested shapes -/

open Build

variable {store : Store}

/-- What an expression is built to: a text stays one, and a shape becomes a token. -/
structure Built (store : Store) (e : Expression) (arg : Arg) : Prop where
  hands : content.Hands store (part arg) (some e.tree)
  token : e.isText = false → ∃ id, arg = .token id ∧ content.Shows store id e.tree

/-- The last step of every shape. -/
theorem grows_token {e : Expression} {x : Build TokenId} (h : content.Makes store x e.tree) :
    Grows store (do return .token (← x)) fun store' arg => e.Built store' arg :=
  Grows.bind h fun id _ _ ⟨_, hshows⟩ =>
    grows_pure ⟨hands_token hshows, fun _ => ⟨id, rfl, hshows⟩⟩

/-- A listing of recipes gives the listing of what they give. -/
theorem grows_buildListing (names : Names) {recipes : List Recipe} {post : Store → List Arg → Prop}
    (h : Grows store (Recipe.buildAll names recipes) post) :
    Grows store (Recipe.buildListing names (.each recipes)) fun store' listing =>
      ∃ args, listing = .each args ∧ post store' args := by
  rw [Recipe.buildListing]
  exact h.bind fun args _ _ hargs => grows_pure ⟨args, rfl, hargs⟩

mutual

/-- Whatever an expression is made of, it is built to its tree. -/
theorem grows_recipe (names : Names) : ∀ (e : Expression) {store : Store}, store.ClearAhead →
    Grows store (e.recipe.build names) fun store' arg => e.Built store' arg
  | text s, _, _ => by
    rw [recipe, Recipe.build]
    exact grows_pure ⟨hands_text s, fun h => Bool.noConfusion h⟩
  | binary left operator right, _, hclear => by
    rw [recipe, Recipe.build]
    refine (grows_recipe names left hclear).bind ?_
    rintro leftArg store₁ h₁ hleft
    refine (grows_recipe names right (hclear.mono h₁)).bind ?_
    rintro rightArg store₂ h₂ hright
    refine grows_token ?_
    exact makes_binary (hclear.mono (h₁.trans h₂)) (hleft.hands.mono h₂) operator
      (hands_hanging hright.hands)
  | prefixed operator operand, _, hclear => by
    rw [recipe, Recipe.build]
    refine (grows_recipe names operand hclear).bind ?_
    rintro operandArg store₁ h₁ hoperand
    exact grows_token (makes_prefixed (hclear.mono h₁) operator hoperand.hands)
  | call callee args, _, hclear => by
    rw [recipe, Recipe.build]
    refine (grows_recipe names callee hclear).bind ?_
    rintro calleeArg store₁ h₁ hcallee
    refine (grows_buildListing names (grows_recipes names args (hclear.mono h₁))).bind ?_
    rintro _ store₂ h₂ ⟨args, rfl, hargs⟩
    refine grows_token ?_
    exact makes_applied (hclear.mono (h₁.trans h₂)) (hcallee.hands.mono h₂)
      (hands_list hargs 1 none) "(" ")"
  | methodCall target name args, _, hclear => by
    rw [recipe, Recipe.build]
    refine (grows_recipe names target hclear).bind ?_
    rintro targetArg store₁ h₁ htarget
    refine (grows_buildListing names (grows_recipes names args (hclear.mono h₁))).bind ?_
    rintro _ store₂ h₂ ⟨args, rfl, hargs⟩
    refine grows_token ?_
    exact makes_methodCall (hclear.mono (h₁.trans h₂)) (htarget.hands.mono h₂) name
      (hands_list hargs 1 none)
  | member target name, _, hclear => by
    rw [recipe, Recipe.build]
    refine (grows_recipe names target hclear).bind ?_
    rintro targetArg store₁ h₁ htarget
    exact grows_token (makes_member (hclear.mono h₁) htarget.hands name)
  | index target indices, _, hclear => by
    rw [recipe, Recipe.build]
    refine (grows_recipe names target hclear).bind ?_
    rintro targetArg store₁ h₁ htarget
    refine (grows_buildListing names (grows_recipes names indices (hclear.mono h₁))).bind ?_
    rintro _ store₂ h₂ ⟨args, rfl, hargs⟩
    refine grows_token ?_
    exact makes_applied (hclear.mono (h₁.trans h₂)) (htarget.hands.mono h₂)
      (hands_list hargs 0 none) "[" "]"
  | conditional test ifTrue ifFalse, _, hclear => by
    rw [recipe, Recipe.build]
    refine (grows_recipe names test hclear).bind ?_
    rintro testArg store₁ h₁ htest
    refine (grows_recipe names ifTrue (hclear.mono h₁)).bind ?_
    rintro trueArg store₂ h₂ htrue
    have h₁₂ := h₁.trans h₂
    refine (grows_recipe names ifFalse (hclear.mono h₁₂)).bind ?_
    rintro falseArg store₃ h₃ hfalse
    refine grows_token ?_
    exact makes_conditional (hclear.mono (h₁₂.trans h₃)) (htest.hands.mono (h₂.trans h₃))
      (htrue.hands.mono h₃) hfalse.hands
  | arrow parameters body operator, _, hclear => by
    rw [recipe, Recipe.build]
    refine (grows_recipe names body hclear).bind ?_
    rintro bodyArg store₁ h₁ hbody
    exact grows_token (makes_arrow (hclear.mono h₁) parameters (hands_hanging hbody.hands) operator)
  | initializer head items, _, hclear => by
    rw [recipe, Recipe.build]
    refine (grows_optionalRecipe names head hclear).bind ?_
    rintro headArg store₁ h₁ hhead
    refine (grows_buildListing names (grows_recipes names items (hclear.mono h₁))).bind ?_
    rintro _ store₂ h₂ ⟨args, rfl, hargs⟩
    refine grows_token ?_
    exact makes_initializer (hclear.mono (h₁.trans h₂)) (hhead.mono h₂)
      (hands_list hargs 0 (some true))
  | sequence opening closing items, _, hclear => by
    rw [recipe, Recipe.build, Recipe.build, Recipe.build]
    refine (grows_buildListing names (grows_recipes names items hclear)).bind ?_
    rintro _ store₁ h₁ ⟨args, rfl, hargs⟩
    refine grows_token ?_
    exact makes_sequence (hclear.mono h₁) opening closing (hands_list hargs 0 none)

theorem grows_optionalRecipe (names : Names) :
    ∀ (item : Option Expression) {store : Store}, store.ClearAhead →
      Grows store ((optionalRecipe item).build names) fun store' arg =>
        content.Hands store' (part arg) (optionalTree item)
  | none, _, _ => by
    rw [optionalRecipe, Recipe.build]
    exact grows_pure hands_null
  | some e, _, hclear => (grows_recipe names e hclear).imp fun _ _ _ h => h.hands

theorem grows_recipes (names : Names) :
    ∀ (items : List (Option Expression)) {store : Store}, store.ClearAhead →
      Grows store (Recipe.buildAll names (recipes items)) fun store' args =>
        List.Forall₂ (fun arg shape => content.Hands store' (part arg) shape) args (trees items)
  | [], _, _ => by
    rw [recipes, Recipe.buildAll]
    exact grows_pure .nil
  | item :: items, _, hclear => by
    rw [recipes, Recipe.buildAll]
    refine (grows_optionalRecipe names item hclear).bind ?_
    rintro first store₁ h₁ hfirst
    refine (grows_recipes names items (hclear.mono h₁)).bind ?_
    rintro rest store₂ h₂ hrest
    exact grows_pure (.cons (hfirst.mono h₂) hrest)

end

/-- A token of a store shows an expression: it is a single element if the expression is one, under
every layout its text is that of the expression with breaks put in, and each binary expression in it
has its parentheses, however deep it stands. -/
structure Shown (store : Store) (id : TokenId) (e : Expression) : Prop where
  tree : ∃ t, store.tree? id = some t ∧ t.flat = e.spelled ∧ t.isSingle = e.isSingle
  render : ∀ settings : Settings, ∃ (rendering : Rendering) (lines : Lines),
    ((Build.render settings (.token id)).run store).1 = .ok rendering ∧
      rendering.text = lines.build settings.indentWidth settings.newline ∧
      lines.Tight ∧ lines.flat = e.spelled
  parentheses : ∀ left operator right, (binary left operator right).Within e →
    ("(" ++ left.spelled ++ " " ++ operator ++ " " ++ right.spelled ++ ")").toList <:+:
      e.spelled.toList

/-- What a token shows of an expression does not depend on marks, cells and settings. -/
theorem shown_of_shows {id : TokenId} {e : Expression} (h : content.Shows store id e.tree) :
    e.Shown store id := by
  obtain ⟨t, ht, hw, hflat, hsingle⟩ := h.exists_flat
  rw [flat_tree] at hflat
  rw [isSingle_tree] at hsingle
  refine ⟨⟨t, ht, hflat, hsingle⟩, fun settings => ?_, fun left operator right hwithin => ?_⟩
  · refine ⟨_, t.lines settings.toThresholds store.memo,
      Build.result_render_of_writable settings ht hw, rfl, Lines.tight_ofStrokes _, ?_⟩
    rw [Token.flat_lines hw, hflat]
  · have hinfix := hwithin.infix_spelled
    rwa [spelled] at hinfix

end Expression

/-- Measured tokens are tokens that are there. -/
theorem Store.Sound.clearAhead {allowed : Thresholds → Prop} {store : Store}
    (h : store.Sound allowed) : store.ClearAhead := by
  refine clearAhead_of_find? (fun id n hn => ?_) fun id b hb => ?_
  · obtain ⟨_, _, _, _, hentry, -⟩ := h.length id n hn
    exact ⟨_, hentry⟩
  · obtain ⟨_, _, _, _, hentry, -⟩ := h.multiline id b hb
    exact ⟨_, hentry⟩

/-- In every session that is reached, a shape over any parts is built without a fault and shows its
expression. -/
theorem Session.Reached.exists_shown {session : Session} (h : session.Reached fun _ => True)
    (names : Names) {e : Expression} (he : e.isText = false) :
    ∃ id store, (e.recipe.build names).run session.store = (.ok (.token id), store) ∧
      e.Shown store id := by
  have hsound : session.store.Sound fun _ => True :=
    h.invariant (Store.sound_unmeasured {}) fun _ _ hc hs => hc.sound hs
  obtain ⟨arg, store, hrun, -, hbuilt⟩ := Expression.grows_recipe names e hsound.clearAhead
  obtain ⟨id, rfl, hshows⟩ := hbuilt.token he
  exact ⟨id, store, hrun, Expression.shown_of_shows hshows⟩

/-- A call that is measured before anything else is built. -/
def Script.measuredCall : Script :=
  [.bind "f" (.call (.datum (.text "f")) (.each [])), .measure (.named "f")]

/-- Operators before a binary expression, which keeps its own parentheses, before a member, which
gets some, and before an initializer that has neither a head nor all of its items. -/
theorem Session.Reached.exists_shown_operators :
    let session := ((Step.runAll Script.measuredCall).run {}).2
    let sum : Expression := .prefixed "-" (.binary (.text "a") "+" (.text "b"))
    let e : Expression := .prefixed "!" (.initializer none
      [some sum, none, some (.prefixed "~" (.member (.text "x") "y"))])
    (session.Reached fun _ => True) ∧ (session.store.memo.get 3).length = some 3 ∧
      e.isText = false ∧ e.spelled = "!\x7b-(a + b), ~(x.y)\x7d" ∧
      ∃ id store, (e.recipe.build session.names).run session.store = (.ok (.token id), store) ∧
        e.Shown store id := by
  intro session sum e
  have hreached : session.Reached fun _ => True :=
    .runAll (.start trivial) (by simp [Script.measuredCall, Step.AllPlain, Step.Plain])
  have hspelled : e.spelled = "!\x7b-(a + b), ~(x.y)\x7d" := by decide +kernel
  exact ⟨hreached, by decide +kernel, rfl, hspelled, hreached.exists_shown session.names rfl⟩

end TokenLayout
