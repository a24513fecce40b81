import Mathlib.Data.List.Forall2
import TokenLayout.Proofs.FlatText
import TokenLayout.Proofs.Growing

/-!
# The trees of shapes

A shape puts the trees of its parts together in its own way, and `Tracking.binaryTree` and the
functions after it say how. Each of them is the tree that is built (`Tracking.makes_binary` and the
lemmas after it), whatever the parts are and however they are come by.

How much of a tree can be told while the store grows depends on what is done to it. A `Tracking`
says what is seen of the marks and the cells of its tokens, and how a store may grow so that this
stays as it is. Parts that are handed over are tracked from then on (`Tracking.Hands`).
-/

namespace TokenLayout

/-- The tree under a token can be written, its cells are as they should be, and it is `shape` as far
as its marks are seen. -/
def Store.Carries (store : Store) (seen : Marks → Tag) (holds : Cells → Prop) (id : TokenId)
    (shape : Token) : Prop :=
  ∃ t : Token, t.tag.id = id ∧ t.StandsIn store ∧ t.Writable ∧
    (t.Every fun u => holds (store.memo.get u.tag.id)) ∧
    t.mapTag (fun tag => seen tag.toMarks) = shape

/-- A way to keep track of trees in a store that grows. -/
structure Tracking where
  /-- What is seen of the marks of a token. -/
  seen : Marks → Tag
  /-- What is known of its cells. -/
  holds : Cells → Prop
  /-- How the store may grow. -/
  keeps : Store → Store → Prop
  holds_of_open : ∀ {cells : Cells}, cells.measured = false → holds cells
  keeps_of_extends : ∀ {store store' : Store}, store.Extends store' → keeps store store'
  trans : ∀ {store store' store'' : Store}, keeps store store' → keeps store' store'' →
    keeps store store''
  mono : ∀ {store store' : Store} {id : TokenId} {shape : Token},
    store.Carries seen holds id shape → keeps store store' → store'.Carries seen holds id shape

namespace Tracking

open Build

variable {T : Tracking} {store store' : Store} {id : TokenId} {shape : Token}

/-! ## Tokens that are tracked -/

/-- The tree under a token is `shape`, as far as it is seen. -/
def Shows (T : Tracking) (store : Store) (id : TokenId) (shape : Token) : Prop :=
  store.Carries T.seen T.holds id shape

/-- What is shown stays so while the store grows in its way. -/
theorem Shows.mono (h : T.Shows store id shape) (hkeeps : T.keeps store store') :
    T.Shows store' id shape :=
  T.mono h hkeeps

/-- A token that shows a tree is there, so the next one has another number. -/
theorem Shows.ne_size (h : T.Shows store id shape) : id ≠ store.entries.size := by
  obtain ⟨t, rfl, hs, -⟩ := h
  exact Store.ne_size_of_find? hs.find?

/-- A new leaf shows what it is made of. -/
theorem shows_leaf {marks : Marks} {role : LeafRole} {text : String}
    (h : store.find? id = some ⟨marks, .leaf role text⟩)
    (hopen : (store.memo.get id).measured = false) :
    T.Shows store id (.leaf (T.seen marks) role text) := by
  refine ⟨.leaf ⟨marks, id⟩ role text, rfl, ?_, ?_, ?_, rfl⟩
  · exact Token.every_iff.2 ⟨h, by simp [Token.children]⟩
  · refine Token.every_iff.2 ⟨?_, by simp [Token.children]⟩
    cases role <;> rfl
  · exact Token.every_iff.2 ⟨T.holds_of_open hopen, by simp [Token.children]⟩

/-- A new bracket shows what its body shows, between its delimiters. -/
theorem shows_bracket {marks : Marks} {frame : Frame} {body : TokenId}
    (h : store.find? id = some ⟨marks, .bracket frame body⟩)
    (hopen : (store.memo.get id).measured = false) (hbody : T.Shows store body shape) :
    T.Shows store id (.bracket (T.seen marks) frame shape) := by
  obtain ⟨t, rfl, hs, hw, hholds, rfl⟩ := hbody
  refine ⟨.bracket ⟨marks, id⟩ frame t, rfl, ?_, ?_, ?_, rfl⟩
  · exact Token.every_iff.2 ⟨h, fun c hc => List.mem_singleton.1 hc ▸ hs⟩
  · exact Token.every_iff.2 ⟨rfl, fun c hc => List.mem_singleton.1 hc ▸ hw⟩
  · exact Token.every_iff.2 ⟨T.holds_of_open hopen, fun c hc => List.mem_singleton.1 hc ▸ hholds⟩

/-- Tokens that show trees have trees, all of them in the same store. -/
theorem exists_trees {ids : List TokenId} {shapes : List Token}
    (h : List.Forall₂ (T.Shows store) ids shapes) :
    ∃ ts : List Token, (ts.map fun t => t.tag.id) = ids ∧
      ts.map (Token.mapTag fun tag => T.seen tag.toMarks) = shapes ∧
      ∀ t ∈ ts, t.StandsIn store ∧ t.Writable ∧
        t.Every fun u => T.holds (store.memo.get u.tag.id) := by
  induction h with
  | nil => exact ⟨[], rfl, rfl, by simp⟩
  | cons hshows _ ih =>
    obtain ⟨t, rfl, hs, hw, hholds, rfl⟩ := hshows
    obtain ⟨ts, rfl, rfl, hall⟩ := ih
    exact ⟨t :: ts, rfl, rfl, List.forall_mem_cons.2 ⟨⟨hs, hw, hholds⟩, hall⟩⟩

/-- A new group shows what its parts show, in their order. -/
theorem shows_group {marks : Marks} {commas : Bool} {forced : Option Bool} {ids : List TokenId}
    {shapes : List Token} (h : store.find? id = some ⟨marks, .group commas forced ids⟩)
    (hopen : (store.memo.get id).measured = false)
    (hparts : List.Forall₂ (T.Shows store) ids shapes) :
    T.Shows store id (.group (T.seen marks) commas forced shapes) := by
  obtain ⟨ts, rfl, rfl, hall⟩ := exists_trees hparts
  refine ⟨.group ⟨marks, id⟩ commas forced ts, rfl, ?_, ?_, ?_, ?_⟩
  · exact Token.every_iff.2 ⟨h, fun c hc => (hall c hc).1⟩
  · exact Token.every_iff.2 ⟨rfl, fun c hc => (hall c hc).2.1⟩
  · exact Token.every_iff.2 ⟨T.holds_of_open hopen, fun c hc => (hall c hc).2.2⟩
  · rw [Token.mapTag, Token.mapTags_eq_map]

/-- A part that may be missing shows a tree that may be missing. -/
abbrev ShowsPart (T : Tracking) (store : Store) : Option TokenId → Option Token → Prop :=
  Option.Rel (T.Shows store)

theorem ShowsPart.mono {part : Option TokenId} {shape : Option Token}
    (h : T.ShowsPart store part shape) (hkeeps : T.keeps store store') :
    T.ShowsPart store' part shape := by
  cases h with
  | none => exact .none
  | some hshows => exact .some (hshows.mono hkeeps)

/-- Missing parts are left out on both sides. -/
theorem ShowsPart.reduceOption {parts : List (Option TokenId)} {shapes : List (Option Token)}
    (h : List.Forall₂ (T.ShowsPart store) parts shapes) :
    List.Forall₂ (T.Shows store) parts.reduceOption shapes.reduceOption := by
  induction h with
  | nil => exact .nil
  | cons hpart _ ih =>
    cases hpart with
    | none => simpa only [List.reduceOption_cons_of_none] using ih
    | some hshows => simpa only [List.reduceOption_cons_of_some] using .cons hshows ih

theorem ne_size_of_shows {ids : List TokenId} {shapes : List Token}
    (h : List.Forall₂ (T.Shows store) ids shapes) : ∀ id ∈ ids, id ≠ store.entries.size := by
  induction h with
  | nil => simp
  | cons hshows _ ih => exact List.forall_mem_cons.2 ⟨hshows.ne_size, ih⟩

/-! ## Building -/

/-- The work makes a token that shows a tree, and those that were tracked still are. -/
def Makes (T : Tracking) (store : Store) (x : Build TokenId) (shape : Token) : Prop :=
  Grows store x fun store' id => T.keeps store store' ∧ T.Shows store' id shape

/-- From here on, the work hands over a token that shows a tree, or none if there is none to show,
and those that were tracked still are. -/
def Hands (T : Tracking) (store : Store) (x : Build Arg) (shape : Option Token) : Prop :=
  ∀ store', T.keeps store store' → store'.ClearAhead → Grows store' x fun store'' arg =>
    T.keeps store' store'' ∧ ∃ part, arg = partArg part ∧ T.ShowsPart store'' part shape

/-- What was tracked before the store grew is tracked after the work too. -/
theorem Makes.since {x : Build TokenId} (h : T.Makes store' x shape)
    (hkeeps : T.keeps store store') :
    Grows store' x fun store'' id => T.keeps store store'' ∧ T.Shows store'' id shape :=
  Grows.imp h fun _ _ _ ⟨hkeeps', hshows⟩ => ⟨T.trans hkeeps hkeeps', hshows⟩

/-- What is made is there for the work that follows, which may rely on all that was tracked. -/
theorem Makes.bind {x : Build TokenId} {f : TokenId → Build TokenId} {whole : Token}
    (h : T.Makes store x shape) (hclear : store.ClearAhead)
    (hf : ∀ id store', T.keeps store store' → store'.ClearAhead → T.Shows store' id shape →
      T.Makes store' (f id) whole) : T.Makes store (x >>= f) whole :=
  Grows.bind h fun id store' hgrows ⟨hkeeps, hshows⟩ =>
    (hf id store' hkeeps (hclear.mono hgrows) hshows).since hkeeps

/-- So is what is handed over, or it is known to be missing. -/
theorem Hands.bindPart {x : Build Arg} {f : Arg → Build TokenId} {shape : Option Token}
    {whole : Token} (h : T.Hands store x shape) (hclear : store.ClearAhead)
    (hf : ∀ part store', T.keeps store store' → store'.ClearAhead →
      T.ShowsPart store' part shape → T.Makes store' (f (partArg part)) whole) :
    T.Makes store (x >>= f) whole := by
  refine (h store (T.keeps_of_extends (.refl store)) hclear).bind ?_
  rintro _ store' hgrows ⟨hkeeps, part, rfl, hshows⟩
  exact (hf part store' hkeeps (hclear.mono hgrows) hshows).since hkeeps

theorem Hands.bind {x : Build Arg} {f : Arg → Build TokenId} {whole : Token}
    (h : T.Hands store x (some shape)) (hclear : store.ClearAhead)
    (hf : ∀ id store', T.keeps store store' → store'.ClearAhead → T.Shows store' id shape →
      T.Makes store' (f (.token id)) whole) : T.Makes store (x >>= f) whole := by
  refine h.bindPart hclear fun part store' hkeeps hclear' hshows => ?_
  cases hshows with
  | some hshows => exact hf _ store' hkeeps hclear' hshows

/-- Handing over can wait while the store grows. -/
theorem Hands.mono {x : Build Arg} {shape : Option Token} (h : T.Hands store x shape)
    (hkeeps : T.keeps store store') : T.Hands store' x shape :=
  fun store'' hkeeps' hclear => h store'' (T.trans hkeeps hkeeps') hclear

/-- A token that shows a tree is handed over as it is. -/
theorem hands_token (h : T.Shows store id shape) : T.Hands store (part (.token id)) (some shape) :=
  fun store' hkeeps _ =>
    grows_pure ⟨T.keeps_of_extends (.refl store'), some id, rfl, .some (h.mono hkeeps)⟩

/-- A missing part is handed over as no value. -/
theorem hands_null : T.Hands store (part (.datum .null)) none :=
  fun store' _ _ => grows_pure ⟨T.keeps_of_extends (.refl store'), none, rfl, .none⟩

/-- A text that was made a leaf. -/
def wordTree (T : Tracking) (text : String) (marks : Marks := {}) : Token :=
  .leaf (T.seen marks) .word text

theorem makes_word (hclear : store.ClearAhead) (text : String) (marks : Marks) :
    T.Makes store (word text marks) (T.wordTree text marks) :=
  (grows_make hclear marks _).imp fun _ _ _ ⟨hext, _, hentry, hopen⟩ =>
    ⟨T.keeps_of_extends hext, shows_leaf hentry hopen⟩

/-- What is made is handed over as a token. -/
theorem hands_of_makes {x : Build TokenId}
    (h : ∀ store', T.keeps store store' → store'.ClearAhead → T.Makes store' x shape) :
    T.Hands store (do return .token (← x)) (some shape) :=
  fun store' hkeeps hclear => Grows.bind (h store' hkeeps hclear) fun id _ _ ⟨hkeeps', hshows⟩ =>
    grows_pure ⟨hkeeps', some id, rfl, .some hshows⟩

/-- A text is handed over as a new leaf. -/
theorem hands_text (text : String) :
    T.Hands store (part (.datum (.text text))) (some (T.wordTree text)) :=
  hands_of_makes fun _ _ hclear => makes_word hclear text {}

/-- A bracket round a token that shows a tree. -/
theorem makes_bracketOf (hclear : store.ClearAhead) (h : T.Shows store id shape)
    (opening closing : String) (bareSingle ownLine : Bool) :
    T.Makes store (bracketOf opening closing (.token id) bareSingle ownLine)
      (.bracket (T.seen {}) { opening, closing, bareSingle, ownLine } shape) := by
  have hmake : bracketOf opening closing (.token id) bareSingle ownLine =
      make {} (.bracket { opening, closing, bareSingle, ownLine } id) := rfl
  rw [Makes, hmake]
  refine (grows_make hclear {} _).imp fun _ _ _ ⟨hext, _, hentry, hopen⟩ => ?_
  have hkeeps := T.keeps_of_extends hext
  exact ⟨hkeeps, shows_bracket hentry hopen (h.mono hkeeps)⟩

/-- Parts in a row. -/
def rowTree (T : Tracking) (parts : List Token) : Token :=
  .group (T.seen {}) false none parts

/-- A group without commas of parts that show trees, some of which may be missing. -/
theorem makes_groupOf (hclear : store.ClearAhead) {parts : List (Option TokenId)}
    {shapes : List (Option Token)} (h : List.Forall₂ (T.ShowsPart store) parts shapes) :
    T.Makes store (groupOf (parts.map partArg)) (T.rowTree shapes.reduceOption) := by
  have hshows := ShowsPart.reduceOption h
  refine (grows_groupOf hclear (ne_size_of_shows hshows) false none {}).imp ?_
  rintro _ store' - ⟨rfl, hdone⟩
  have hext : store.Extends store' := hdone.extends (.refl store) nofun
  have hkeeps := T.keeps_of_extends hext
  refine ⟨hkeeps, shows_group hdone.group ?_ (hshows.imp fun _ _ hpart => hpart.mono hkeeps)⟩
  rw [hext.memo]
  exact hclear _ le_rfl

/-- A group of parts that are all there. -/
theorem makes_row (hclear : store.ClearAhead) {ids : List TokenId} {shapes : List Token}
    (h : List.Forall₂ (T.Shows store) ids shapes) :
    T.Makes store (groupOf (ids.map .token)) (T.rowTree shapes) := by
  have hparts : List.Forall₂ (T.ShowsPart store) (ids.map some) (shapes.map some) := by
    rw [List.forall₂_map_left_iff, List.forall₂_map_right_iff]
    exact h.imp fun _ _ hshows => .some hshows
  have hmakes := makes_groupOf hclear hparts
  rw [List.map_map, reduceOption_map_some] at hmakes
  exact hmakes

/-! ## Shapes -/

section Shapes

variable (T)

/-- Both operands in parentheses. -/
def binaryTree (left : Token) (operator : String) (right : Token) : Token :=
  .bracket (T.seen {}) { opening := "(", closing := ")", bareSingle := true }
    (T.rowTree [left, T.wordTree (" " ++ operator ++ " "), right])

/-- An operator before its operand. -/
def prefixedTree (operator : String) (operand : Token) : Token :=
  T.rowTree [T.wordTree operator,
    .bracket (T.seen {}) { opening := "(", closing := ")", bareSingle := true } operand]

/-- Items between brackets. -/
def sequenceTree (opening closing : String) (items : Token) : Token :=
  .bracket (T.seen {}) { opening, closing } items

/-- A target with items in brackets behind it: a call, or an element that is picked out. -/
def appliedTree (opening closing : String) (target items : Token) : Token :=
  T.rowTree [target, T.sequenceTree opening closing items]

/-- The name of a member. -/
def memberNameTree (name : String) : Token :=
  T.wordTree ("." ++ name) { breakable := true, inset := 1 }

/-- A member. -/
def memberTree (target : Token) (name : String) : Token :=
  T.rowTree [target, T.memberNameTree name]

/-- A call of a member. -/
def methodCallTree (target : Token) (name : String) (items : Token) : Token :=
  T.rowTree [target, T.memberNameTree name, T.sequenceTree "(" ")" items]

/-- A choice between two expressions. -/
def conditionalTree (test ifTrue ifFalse : Token) : Token :=
  T.rowTree [test, T.wordTree " ? " { breakable := true }, ifTrue,
    T.wordTree " : " { breakable := true }, ifFalse]

/-- A function of some parameters. -/
def arrowTree (parameters : String) (body : Token) (operator : String) : Token :=
  T.rowTree [T.wordTree (parameters ++ operator), body]

/-- Items in a block on lines of its own. -/
def blockTree (items : Token) : Token :=
  .bracket (T.seen {}) { opening := "\x7b", closing := "\x7d", ownLine := true } items

/-- A head, if there is one, with a block below it. -/
def initializerTree (head : Option Token) (items : Token) : Token :=
  T.rowTree (head.toList ++ [T.blockTree items])

end Shapes

variable {left right target body test ifTrue ifFalse head : Arg} {l r t b c items : Token}
  {args : Listing Arg}

/-- The right operand is to be handed over marked. -/
theorem makes_binary (hclear : store.ClearAhead) (hleft : T.Hands store (part left) (some l))
    (operator : String) (hright : T.Hands store (hanging right) (some r)) :
    T.Makes store (binary left operator right) (T.binaryTree l operator r) := by
  refine hright.bind hclear fun right store₁ h₁ hclear₁ hright => ?_
  refine (hleft.mono h₁).bind hclear₁ fun left store₂ h₂ hclear₂ hleft => ?_
  refine (makes_word hclear₂ _ {}).bind hclear₂ fun word store₃ h₃ hclear₃ hword => ?_
  have hparts : List.Forall₂ (T.Shows store₃) [left, word, right]
      [l, T.wordTree (" " ++ operator ++ " "), r] :=
    .cons (hleft.mono h₃) (.cons hword (.cons (hright.mono (T.trans h₂ h₃)) .nil))
  refine (makes_row hclear₃ hparts).bind hclear₃ fun body store₄ _ hclear₄ hbody => ?_
  exact makes_bracketOf hclear₄ hbody "(" ")" true false

theorem makes_prefixed (hclear : store.ClearAhead) (operator : String)
    (hbody : T.Hands store (part body) (some b)) :
    T.Makes store (prefixed operator body) (T.prefixedTree operator b) := by
  refine (makes_word hclear operator {}).bind hclear fun word store₁ h₁ hclear₁ hword => ?_
  refine (hbody.mono h₁).bind hclear₁ fun operand store₂ h₂ hclear₂ hoperand => ?_
  refine (makes_bracketOf hclear₂ hoperand "(" ")" true false).bind hclear₂ ?_
  intro bracket store₃ h₃ hclear₃ hbracket
  have hparts : List.Forall₂ (T.Shows store₃) [word, bracket] [T.wordTree operator, _] :=
    .cons (hword.mono (T.trans h₂ h₃)) (.cons hbracket .nil)
  exact makes_row hclear₃ hparts

/-- A target with items in brackets behind it. -/
theorem makes_applied (hclear : store.ClearAhead) (htarget : T.Hands store (part target) (some t))
    {inset : Nat} (hitems : T.Hands store (list args inset) (some items))
    (opening closing : String) :
    T.Makes store (do
      let target ← part target
      let args ← bracketOf opening closing (← list args inset)
      groupOf [target, .token args]) (T.appliedTree opening closing t items) := by
  refine htarget.bind hclear fun target store₁ h₁ hclear₁ htarget => ?_
  refine (hitems.mono h₁).bind hclear₁ fun list store₂ h₂ hclear₂ hlist => ?_
  refine (makes_bracketOf hclear₂ hlist opening closing false false).bind hclear₂ ?_
  intro bracket store₃ h₃ hclear₃ hbracket
  have hparts : List.Forall₂ (T.Shows store₃) [target, bracket] [t, _] :=
    .cons (htarget.mono (T.trans h₂ h₃)) (.cons hbracket .nil)
  exact makes_row hclear₃ hparts

theorem hands_memberName (name : String) :
    T.Hands store (memberName name) (some (T.memberNameTree name)) :=
  hands_of_makes fun _ _ hclear => makes_word hclear _ _

theorem makes_member (hclear : store.ClearAhead) (htarget : T.Hands store (part target) (some t))
    (name : String) : T.Makes store (member target name) (T.memberTree t name) := by
  refine htarget.bind hclear fun target store₁ h₁ hclear₁ htarget => ?_
  refine (hands_memberName name).bind hclear₁ fun member store₂ h₂ hclear₂ hmember => ?_
  have hparts : List.Forall₂ (T.Shows store₂) [target, member] [t, _] :=
    .cons (htarget.mono h₂) (.cons hmember .nil)
  exact makes_row hclear₂ hparts

theorem makes_methodCall (hclear : store.ClearAhead)
    (htarget : T.Hands store (part target) (some t)) (name : String)
    (hitems : T.Hands store (list args 1) (some items)) :
    T.Makes store (methodCall target name args) (T.methodCallTree t name items) := by
  refine htarget.bind hclear fun target store₁ h₁ hclear₁ htarget => ?_
  refine (hands_memberName name).bind hclear₁ fun member store₂ h₂ hclear₂ hmember => ?_
  refine (hitems.mono (T.trans h₁ h₂)).bind hclear₂ fun list store₃ h₃ hclear₃ hlist => ?_
  refine (makes_bracketOf hclear₃ hlist "(" ")" false false).bind hclear₃ ?_
  intro bracket store₄ h₄ hclear₄ hbracket
  have h₃₄ := T.trans h₃ h₄
  have hparts : List.Forall₂ (T.Shows store₄) [target, member, bracket] [t, _, _] :=
    .cons (htarget.mono (T.trans h₂ h₃₄)) (.cons (hmember.mono h₃₄) (.cons hbracket .nil))
  exact makes_row hclear₄ hparts

theorem makes_conditional (hclear : store.ClearAhead) (htest : T.Hands store (part test) (some t))
    (htrue : T.Hands store (part ifTrue) (some b))
    (hfalse : T.Hands store (part ifFalse) (some c)) :
    T.Makes store (conditional test ifTrue ifFalse) (T.conditionalTree t b c) := by
  refine htest.bind hclear fun test store₁ h₁ hclear₁ htest => ?_
  refine (makes_word hclear₁ " ? " _).bind hclear₁ fun question store₂ h₂ hclear₂ hquestion => ?_
  have h₁₂ := T.trans h₁ h₂
  refine (htrue.mono h₁₂).bind hclear₂ fun ifTrue store₃ h₃ hclear₃ htrue => ?_
  refine (makes_word hclear₃ " : " _).bind hclear₃ fun colon store₄ h₄ hclear₄ hcolon => ?_
  have h₃₄ := T.trans h₃ h₄
  refine (hfalse.mono (T.trans h₁₂ h₃₄)).bind hclear₄ fun ifFalse store₅ h₅ hclear₅ hfalse => ?_
  have h₃₅ := T.trans h₃₄ h₅
  have hparts : List.Forall₂ (T.Shows store₅) [test, question, ifTrue, colon, ifFalse]
      [t, _, b, _, c] :=
    .cons (htest.mono (T.trans h₂ h₃₅)) (.cons (hquestion.mono h₃₅)
      (.cons (htrue.mono (T.trans h₄ h₅)) (.cons (hcolon.mono h₅) (.cons hfalse .nil))))
  exact makes_row hclear₅ hparts

/-- The head is one text, and the body is to be handed over marked. -/
theorem makes_arrow (hclear : store.ClearAhead) (parameters : String)
    (hbody : T.Hands store (hanging body) (some b)) (operator : String) :
    T.Makes store (arrow (.text parameters) body (.text operator))
      (T.arrowTree parameters b operator) := by
  refine hbody.bind hclear fun body store₁ h₁ hclear₁ hbody => ?_
  -- Two texts can always be joined, and the joined text makes a leaf with the usual marks.
  change T.Makes store₁ (word (parameters ++ operator) {} >>= fun head =>
    groupOf [.token head, .token body]) _
  refine (makes_word hclear₁ _ {}).bind hclear₁ fun head store₂ h₂ hclear₂ hhead => ?_
  have hparts : List.Forall₂ (T.Shows store₂) [head, body] [_, b] :=
    .cons hhead (.cons (hbody.mono h₂) .nil)
  exact makes_row hclear₂ hparts

/-- A head that is missing leaves the block alone in its group. -/
theorem makes_initializer (hclear : store.ClearAhead) {h : Option Token}
    (hhead : T.Hands store (part head) h)
    (hitems : T.Hands store (list args 0 (some true)) (some items)) :
    T.Makes store (initializer head args) (T.initializerTree h items) := by
  refine hitems.bind hclear fun list store₁ h₁ hclear₁ hlist => ?_
  refine (hhead.mono h₁).bindPart hclear₁ fun head store₂ h₂ hclear₂ hhead => ?_
  refine (makes_bracketOf hclear₂ (hlist.mono h₂) "\x7b" "\x7d" false true).bind hclear₂ ?_
  intro block store₃ h₃ hclear₃ hblock
  have hparts : List.Forall₂ (T.ShowsPart store₃) [head, some block]
      [h, some (T.blockTree items)] :=
    .cons (hhead.mono h₃) (.cons (.some hblock) .nil)
  have htree : T.initializerTree h items =
      T.rowTree [h, some (T.blockTree items)].reduceOption := by
    cases h <;> rfl
  rw [htree]
  exact makes_groupOf hclear₃ hparts

/-- Delimiters that are texts are never refused. -/
theorem makes_sequence (hclear : store.ClearAhead) (opening closing : String)
    (hitems : T.Hands store (list args) (some items)) :
    T.Makes store (sequence (.datum (.text opening)) (.datum (.text closing)) args)
      (T.sequenceTree opening closing items) := by
  refine hitems.bind hclear fun list store₁ _ hclear₁ hlist => ?_
  exact makes_bracketOf hclear₁ hlist opening closing false false

end Tracking

end TokenLayout
