import Mathlib.Algebra.GroupWithZero.Nat
import TokenLayout.Proofs.Bearing
import TokenLayout.Proofs.Growth
import TokenLayout.Proofs.Shifting

/-!
# Layouts of lists

The shapes that have a list of texts in them have their text in closed form, under all settings
(`Session.Runs.shownText_lists`). A list is put on lines of its own if it has too many items or if
they are too long by themselves, its brackets and commas left out (`Settings.Wraps`), and that alone
decides between the two texts of `Settings.enclosed`. A call of a member has one more decision to
make (`Settings.BreaksMember`), and an initializer none.

To get there, the tree of a shape is followed with its marks (`Tracking.entire`), its tokens are
measured (`Token.wraps_listing`), and its strokes are put on the page one after the other
(`Settings.textOf`).
-/

namespace TokenLayout

/-! ## Texts of strokes -/

namespace Settings

variable (settings : Settings)

/-- The break before a line at `level`. -/
def lineBreak (level : Nat) : String :=
  settings.newline ++ spaces (level * settings.indentWidth)

/-- The text that strokes put on an empty page. -/
def textOf (strokes : List Stroke) : String :=
  (Lines.ofStrokes strokes).build settings.indentWidth settings.newline

variable {s : String} (strokes : List Stroke) (level next : Nat)

@[simp] theorem textOf_nil : settings.textOf [] = "" :=
  rfl

/-- Text at the start of a page stays at its start. -/
theorem textOf_text (hs : s ≠ "") :
    settings.textOf (.text s :: strokes) = s ++ settings.textOf strokes :=
  Page.build_ofStrokes_text hs strokes _ _

/-- A break with text behind it starts a line at its level. -/
theorem textOf_newline_text (hs : s ≠ "") : settings.textOf (.newline level :: .text s :: strokes) =
    settings.lineBreak level ++ s ++ settings.textOf strokes := by
  let page : Page := { width := settings.indentWidth, terminator := settings.newline }
  have hpage : (page.applyAll [.newline level]).build = settings.lineBreak level := by
    change (page.startLine level).build = _
    rw [Page.build_startLine]
    simp [page, lineBreak, Page.fresh]
  have htext := page.build_applyAll_text [.newline level] hs strokes
  rw [List.singleton_append, Page.build_applyAll, hpage] at htext
  exact htext

/-- A line that is still without a text gives way to the next one. -/
theorem textOf_newline_newline : settings.textOf (.newline level :: .newline next :: strokes) =
    settings.textOf (.newline next :: strokes) :=
  rfl

/-! ## Closed forms -/

/-- The texts are put on lines of their own, because there are too many of them or they are too
long. Brackets and commas are not counted. -/
def Wraps (texts : List String) : Prop :=
  settings.maxChildren < texts.length ∨ settings.maxLength < (texts.map String.length).sum

instance (texts : List String) : Decidable (settings.Wraps texts) :=
  inferInstanceAs (Decidable (_ ∨ _))

/-- The texts with commas between them, each on a line of its own at `level`. -/
def stacked (level : Nat) (texts : List String) : String :=
  String.intercalate ", " (texts.map (settings.lineBreak level ++ ·))

/-- The texts between brackets, on one line or on lines of their own at `level`. -/
def enclosed (opening closing : String) (level : Nat) (texts : List String) : String :=
  if settings.Wraps texts then
    opening ++ settings.stacked level texts ++ settings.lineBreak 1 ++ closing
  else opening ++ String.intercalate ", " texts ++ closing

/-- A call of a member starts a line with its name, because its texts are put on lines of their own
or because the call is too big as a whole. It has three parts, and its brackets and its dot are
counted. -/
def BreaksMember (target name : String) (texts : List String) : Prop :=
  settings.Wraps texts ∨ settings.maxChildren < 3 ∨
    settings.maxLength < target.length + 1 + name.length + 2 + (texts.map String.length).sum

instance (target name : String) (texts : List String) :
    Decidable (settings.BreaksMember target name texts) :=
  inferInstanceAs (Decidable (_ ∨ _))

end Settings

/-! ## Items -/

theorem Thresholds.exceeded_natCast (limits : Thresholds) (length count : Nat) :
    limits.exceeded length count = true ↔
      limits.maxChildren < count ∨ limits.maxLength < length := by
  simp [exceeded, or_comm]

theorem Text.intercalate_cons_eq_join (sep s : String) (ss : List String) :
    sep.intercalate (s :: ss) = s ++ String.join (ss.map (sep ++ ·)) := by
  induction ss generalizing s with
  | nil => simp
  | cons t ts ih =>
    rw [String.intercalate_cons_cons, ih]
    simp [String.append_assoc]

namespace Token

open Tracking

variable {settings : Settings} {texts : List String}

/-- The items after the first. -/
theorem textOf_laterItems (htexts : ∀ text ∈ texts, text ≠ "") (broken : Token → Bool)
    (split : Bool) (level : Nat) (fresh : Bool) (rest : List Stroke) :
    settings.textOf (partStrokes broken true split false (texts.map item) level fresh ++ rest) =
      String.join (texts.map fun text =>
        ", " ++ ((if split then settings.lineBreak level else "") ++ text)) ++
          settings.textOf rest := by
  induction texts generalizing fresh with
  | nil => simp [partStrokes]
  | cons text texts ih =>
    have hne : text ≠ "" := htexts text (by simp)
    have hsep : separatorText = ", " := rfl
    specialize ih fun s hs => htexts s (by simp [hs])
    simp only [List.map_cons, partStrokes, lead, item, strokes, tag, List.append_assoc]
    cases split with
    | false => simp [Settings.textOf_text, hne, hsep, ih, String.append_assoc]
    | true =>
      simp [Settings.textOf_text, Settings.textOf_newline_text, hne, hsep, ih, String.append_assoc]

/-- All items of a list. -/
theorem textOf_items (htexts : ∀ text ∈ texts, text ≠ "") (broken : Token → Bool)
    (split : Bool) (level : Nat) (fresh : Bool) (rest : List Stroke) :
    settings.textOf (partStrokes broken true split true (texts.map item) level fresh ++ rest) =
      String.intercalate ", "
        (texts.map ((if split then settings.lineBreak level else "") ++ ·)) ++
          settings.textOf rest := by
  cases texts with
  | nil => simp [partStrokes]
  | cons text texts =>
    have hne : text ≠ "" := htexts text (by simp)
    have htail : ∀ s ∈ texts, s ≠ "" := fun s hs => htexts s (by simp [hs])
    have hlater (fresh : Bool) : settings.textOf _ = _ :=
      textOf_laterItems htail broken split level fresh rest
    rw [List.map_cons, List.map_cons, Text.intercalate_cons_eq_join, List.map_map]
    simp only [partStrokes, lead, item, strokes, tag, List.append_assoc]
    cases split with
    | false =>
      simp [Settings.textOf_text, hne, hlater, Function.comp_def, String.append_assoc]
    | true =>
      simp [Settings.textOf_newline_text, hne, hlater, Function.comp_def, String.append_assoc]

theorem strokes_listing (broken : Token → Bool) (inset : Nat) (forced : Option Bool)
    (texts : List String) (level : Nat) (fresh : Bool) :
    (listing inset forced texts).strokes broken level fresh =
      partStrokes broken true (broken (listing inset forced texts)) true (texts.map item) level
        fresh := by
  rw [listing, strokes]

/-- The length of a list is that of its texts, without the commas. -/
theorem lengths?_items (texts : List String) :
    lengths? (texts.map item) = some (((texts.map String.length).sum : Nat) : Int) := by
  induction texts with
  | nil => rfl
  | cons text texts ih => simp [lengths?, item, length?, ih]

theorem anyMultiline?_items (limits : Thresholds) (texts : List String) :
    anyMultiline? limits (texts.map item) = some false := by
  induction texts with
  | nil => rfl
  | cons text texts ih => simp [anyMultiline?, item, multiline?, ih]

/-- A list is decided over by its texts alone. -/
theorem multiline?_listing (settings : Settings) (inset : Nat) (texts : List String) :
    (listing inset none texts).multiline? settings.toThresholds =
      some (decide (settings.Wraps texts)) := by
  rw [listing, multiline?_group, lengths?_items, Option.bind_some, anyMultiline?_items,
    List.length_map]
  have hexceeded : settings.exceeded ((texts.map String.length).sum : Nat) texts.length = true ↔
      settings.Wraps texts := Thresholds.exceeded_natCast _ _ _
  simp only [hexceeded]
  split_ifs with h <;> simp [h]

/-- A list that is not forced wraps as its settings say. -/
theorem wraps_listing (settings : Settings) (inset : Nat) (texts : List String) :
    (listing inset none texts).wraps settings.toThresholds = decide (settings.Wraps texts) := by
  simp [wraps, multiline?_listing]

/-- The strokes of a bracket that is not on lines of its own. -/
theorem strokes_bracket (broken : Token → Bool) (tag : Tag) (opening closing : String)
    (body : Token) (level : Nat) :
    (bracket tag { opening, closing } body).strokes broken level false =
      if broken body then
        .text opening :: body.strokes broken (level + 1 + body.tag.inset) false ++
          [.newline (level + 1), .text closing]
      else .text opening :: body.strokes broken (level + body.tag.inset) false ++
        [.text closing] := by
  have hfresh : Stroke.freshAfterAll false [.text opening] = false := rfl
  cases h : broken body <;> simp [strokes, h, Frame.before, Frame.after, Frame.bare, hfresh]

/-- The strokes of a bracket on lines of its own, round a body of several lines. -/
theorem strokes_bracket_ownLine {broken : Token → Bool} {body : Token} (h : broken body = true)
    (tag : Tag) (opening closing : String) (level : Nat) (fresh : Bool) :
    (bracket tag { opening, closing, ownLine := true } body).strokes broken level fresh =
      .newline level :: .text opening :: .newline (level + 1) ::
        (body.strokes broken (level + 1 + body.tag.inset) true ++
          [.newline level, .text closing]) := by
  have hfresh : Stroke.freshAfterAll fresh
      [.newline level, .text opening, .newline (level + 1)] = true := rfl
  simp [strokes, h, Frame.before, Frame.after, Frame.bare, hfresh]

/-- Texts in a list between brackets. -/
def enclosed (opening closing : String) (inset : Nat) (texts : List String) : Token :=
  entire.sequenceTree opening closing (.listing inset none texts)

/-- A list between brackets has one of the two texts of `Settings.enclosed`. -/
theorem textOf_enclosed (htexts : ∀ text ∈ texts, text ≠ "") {opening closing : String}
    (hopening : opening ≠ "") (hclosing : closing ≠ "") (inset : Nat) :
    settings.textOf ((enclosed opening closing inset texts).strokes
      (wraps settings.toThresholds) 0 false) =
        settings.enclosed opening closing (1 + inset) texts := by
  have htag : (listing inset none texts).tag.inset = inset := rfl
  rw [enclosed, sequenceTree, strokes_bracket, wraps_listing, Settings.enclosed, htag]
  by_cases h : settings.Wraps texts
  · rw [if_pos (by simpa using h), if_pos h, List.cons_append, Settings.textOf_text _ _ hopening,
      strokes_listing, wraps_listing, textOf_items htexts,
      Settings.textOf_newline_text _ _ _ hclosing]
    simp [h, Settings.stacked, String.append_assoc]
  · rw [if_neg (by simpa using h), if_neg h, List.cons_append, Settings.textOf_text _ _ hopening,
      strokes_listing, wraps_listing, textOf_items htexts, Settings.textOf_text _ _ hclosing]
    simp [h, String.append_assoc]

/-- Texts on lines of their own between braces that are on lines of their own. -/
def block (texts : List String) : Token :=
  entire.blockTree (.listing 0 (some true) texts)

/-- A block is always on lines of its own. -/
theorem textOf_block (htexts : ∀ text ∈ texts, text ≠ "") :
    settings.textOf ((block texts).strokes (wraps settings.toThresholds) 0 false) =
      settings.lineBreak 0 ++ "\x7b" ++ settings.stacked 1 texts ++ settings.lineBreak 0 ++
        "\x7d" := by
  have hopening : "\x7b" ≠ "" := by decide
  have hclosing : "\x7d" ≠ "" := by decide
  have hwraps : (listing 0 (some true) texts).wraps settings.toThresholds = true := rfl
  -- The line for the block gives way to that of its first item or, if it has none, to that of the
  -- closing brace.
  have hstart : settings.textOf (.newline 1 ::
      (partStrokes (wraps settings.toThresholds) true true true (texts.map item) 1 true ++
        [.newline 0, .text "\x7d"])) = settings.textOf
      (partStrokes (wraps settings.toThresholds) true true true (texts.map item) 1 true ++
        [.newline 0, .text "\x7d"]) := by
    cases texts <;> exact settings.textOf_newline_newline _ _ _
  have htag : (listing 0 (some true) texts).tag.inset = 0 := rfl
  rw [block, blockTree, strokes_bracket_ownLine hwraps, htag,
    Settings.textOf_newline_text _ _ _ hopening, strokes_listing, hwraps, hstart,
    textOf_items htexts, Settings.textOf_newline_text _ _ _ hclosing]
  simp [Settings.stacked, String.append_assoc]

/-! ## Groups of texts and brackets -/

theorem partStrokes_wordTree_cons {text : String} (htext : text ≠ "") (broken : Token → Bool)
    (split first : Bool) (marks : Marks) (parts : List Token) (level : Nat) (fresh : Bool) :
    partStrokes broken false split first (entire.wordTree text marks :: parts) level fresh =
      (if split && marks.breakable then [.newline (level + marks.inset)] else []) ++
        .text text :: partStrokes broken false split false parts level false := by
  have htag : (entire.wordTree text marks).tag = ⟨marks, 0⟩ := rfl
  have hstrokes (level : Nat) (fresh : Bool) :
      (entire.wordTree text marks).strokes broken level fresh = [.text text] := rfl
  have hfresh (fresh : Bool) : Stroke.freshAfterAll fresh [.text text] = false := by
    simp [Stroke.freshAfterAll, Stroke.freshAfter, htext]
  simp [partStrokes, lead, hstrokes, htag, Stroke.freshAfterAll_append, hfresh]

/-- The last part of a group follows at once if it may not start a line. -/
theorem partStrokes_unmarked {t : Token} (htag : t.tag = ⟨{}, 0⟩) (broken : Token → Bool)
    (split first : Bool) (level : Nat) (fresh : Bool) :
    partStrokes broken false split first [t] level fresh = t.strokes broken level fresh := by
  have hfresh : Stroke.freshAfterAll fresh [] = fresh := rfl
  simp [partStrokes, lead, htag, hfresh]

/-- A target and what follows it. -/
def applied (target : String) (operand : Token) : Token :=
  entire.rowTree [entire.wordTree target, operand]

theorem textOf_applied {target : String} (htarget : target ≠ "") {operand : Token}
    (htag : operand.tag = ⟨{}, 0⟩) (broken : Token → Bool) :
    settings.textOf ((applied target operand).strokes broken 0 false) =
      target ++ settings.textOf (operand.strokes broken 0 false) := by
  rw [applied, rowTree, strokes, partStrokes_wordTree_cons htarget, partStrokes_unmarked htag,
    Bool.and_false, if_neg Bool.false_ne_true, List.nil_append, Settings.textOf_text _ _ htarget]

/-- The parts of a call of a member. -/
def memberParts (target name : String) (texts : List String) : List Token :=
  [entire.wordTree target, entire.memberNameTree name, enclosed "(" ")" 1 texts]

/-- A call of a member. -/
def memberCall (target name : String) (texts : List String) : Token :=
  entire.rowTree (memberParts target name texts)

theorem lengths?_memberParts (target name : String) (texts : List String) :
    lengths? (memberParts target name texts) = some
      ((target.length + 1 + name.length + 2 + (texts.map String.length).sum : Nat) : Int) := by
  have hlist : (listing 1 none texts).length? =
      some (((texts.map String.length).sum : Nat) : Int) := lengths?_items texts
  have hdot : ".".length = 1 := by decide
  have hframe : ({ opening := "(", closing := ")" } : Frame).length = 2 := by decide
  simp only [memberParts, lengths?, length?, wordTree, memberNameTree, enclosed, sequenceTree,
    hlist, hframe, String.length_append, hdot, Option.pure_def, Option.bind_eq_bind,
    Option.bind_some, Option.some.injEq]
  omega

theorem anyMultiline?_memberParts (settings : Settings) (target name : String)
    (texts : List String) :
    anyMultiline? settings.toThresholds (memberParts target name texts) =
      some (decide (settings.Wraps texts)) := by
  by_cases h : settings.Wraps texts <;>
    simp [memberParts, anyMultiline?, wordTree, memberNameTree, enclosed, sequenceTree,
      multiline?_listing, multiline?, h]

/-- A call of a member wraps if its list does, or if it is too big as a whole. -/
theorem wraps_memberCall (target name : String) (texts : List String) :
    (memberCall target name texts).wraps settings.toThresholds =
      decide (settings.BreaksMember target name texts) := by
  rw [wraps, memberCall, rowTree, multiline?_group, lengths?_memberParts, Option.bind_some,
    anyMultiline?_memberParts]
  simp only [Thresholds.exceeded_natCast]
  split_ifs with h
  · exact (decide_eq_true (Or.inr h)).symm
  · have hiff : settings.BreaksMember target name texts ↔ settings.Wraps texts := or_iff_left h
    simp [hiff]

theorem textOf_memberCall (htexts : ∀ text ∈ texts, text ≠ "") {target : String}
    (htarget : target ≠ "") (name : String) :
    settings.textOf ((memberCall target name texts).strokes (wraps settings.toThresholds) 0 false) =
      target ++ (if settings.BreaksMember target name texts then settings.lineBreak 1 else "") ++
        "." ++ name ++ settings.enclosed "(" ")" 2 texts := by
  have hdot : "." ++ name ≠ "" := by simp
  have hlist : settings.textOf ((enclosed "(" ")" 1 texts).strokes
      (wraps settings.toThresholds) 0 false) = settings.enclosed "(" ")" 2 texts :=
    textOf_enclosed htexts (by decide) (by decide) 1
  have hstrokes : (memberCall target name texts).strokes (wraps settings.toThresholds) 0 false =
      partStrokes (wraps settings.toThresholds) false
        ((memberCall target name texts).wraps settings.toThresholds) true
        (memberParts target name texts) 0 false := rfl
  rw [hstrokes, wraps_memberCall, memberParts, memberNameTree, partStrokes_wordTree_cons htarget,
    partStrokes_wordTree_cons hdot, partStrokes_unmarked rfl, Bool.and_false,
    if_neg Bool.false_ne_true, List.nil_append, Settings.textOf_text _ _ htarget]
  by_cases h : settings.BreaksMember target name texts
  · simp [h, Settings.textOf_newline_text, hdot, hlist, String.append_assoc]
  · simp [h, Settings.textOf_text, hdot, hlist, String.append_assoc]

end Token

/-! ## Building -/

namespace Build

open Token

/-- The text of a token that is built and then rendered. -/
def shownText (settings : Settings) (x : Build TokenId) (store : Store) : Except Fault String :=
  ((do render settings (.token (← x))).run store).1.map Rendering.text

/-- The tree that is made says what is shown. -/
theorem shownText_eq {store : Store} {x : Build TokenId} {shape : Token}
    (h : Tracking.entire.Makes store x shape) (settings : Settings) :
    shownText settings x store =
      .ok (settings.textOf (shape.strokes (wraps settings.toThresholds) 0 false)) := by
  obtain ⟨id, store', hrun, -, -, hshows⟩ := h
  rw [shownText, Attempt.run_bind, hrun]
  exact hshows.text_render settings

end Build

theorem Store.Settled.clearAhead {store : Store} (h : store.Settled) : store.ClearAhead := by
  refine clearAhead_of_find? (fun id n hn => ?_) fun id b hb => ?_
  · obtain ⟨_, _, _, _, hentry, -⟩ := h.length id n hn
    exact ⟨_, hentry⟩
  · obtain ⟨_, _, _, _, hentry, -⟩ := h.multiline id b hb
    exact ⟨_, hentry⟩

/-- The shapes with a list of texts in them, built and rendered under any settings, after any moves
of a session that assign no body to a bracket. The list is on one line, or each of its texts has a
line, at the first level and in calls at the second, and the closing bracket is at the first. A
member that is called starts a line as well if the list wraps or if the call as a whole is too big.
An initializer always wraps. -/
theorem Session.Runs.shownText_lists {start : Settings} {session : Session}
    (h : Runs Step.KeepsBody { settings := start } session) (settings : Settings)
    {texts : List String} (htexts : ∀ text ∈ texts, text ≠ "") {opening closing target : String}
    (hopening : opening ≠ "") (hclosing : closing ≠ "") (htarget : target ≠ "") (name : String) :
    let shown (x : Build TokenId) := Build.shownText settings x session.store
    let args : Listing Arg := .each (Build.textArgs texts)
    shown (Build.sequence (.datum (.text opening)) (.datum (.text closing)) args) =
      .ok (settings.enclosed opening closing 1 texts) ∧
    shown (Build.index (.datum (.text target)) args) =
      .ok (target ++ settings.enclosed "[" "]" 1 texts) ∧
    shown (Build.call (.datum (.text target)) args) =
      .ok (target ++ settings.enclosed "(" ")" 2 texts) ∧
    shown (Build.methodCall (.datum (.text target)) name args) =
      .ok (target ++
        (if settings.BreaksMember target name texts then settings.lineBreak 1 else "") ++
        "." ++ name ++ settings.enclosed "(" ")" 2 texts) ∧
    shown (Build.initializer (.datum (.text target)) args) =
      .ok (target ++ settings.lineBreak 0 ++ "\x7b" ++ settings.stacked 1 texts ++
        settings.lineBreak 0 ++ "\x7d") := by
  intro shown args
  have hclear : session.store.ClearAhead :=
    ((h.turns (proper_start start)).settled Store.settled_empty).clearAhead
  have henclosed {opening closing : String} (hopening : opening ≠ "") (hclosing : closing ≠ "")
      (inset : Nat) : settings.textOf _ = _ := Token.textOf_enclosed htexts hopening hclosing inset
  refine ⟨?_, ?_, ?_, ?_, ?_⟩
  · have hmakes := Tracking.makes_sequence hclear opening closing
      (Tracking.hands_list_texts texts 0 none)
    exact (Build.shownText_eq hmakes settings).trans (congrArg _ (henclosed hopening hclosing 0))
  · have hmakes : Tracking.entire.Makes _ (Build.index (.datum (.text target)) args)
        (.applied target (.enclosed "[" "]" 0 texts)) :=
      Tracking.makes_applied hclear (Tracking.hands_text target)
        (Tracking.hands_list_texts texts 0 none) "[" "]"
    refine (Build.shownText_eq hmakes settings).trans (congrArg _ ?_)
    rw [Token.textOf_applied htarget rfl, henclosed (by decide) (by decide)]
  · have hmakes : Tracking.entire.Makes _ (Build.call (.datum (.text target)) args)
        (.applied target (.enclosed "(" ")" 1 texts)) :=
      Tracking.makes_applied hclear (Tracking.hands_text target)
        (Tracking.hands_list_texts texts 1 none) "(" ")"
    refine (Build.shownText_eq hmakes settings).trans (congrArg _ ?_)
    rw [Token.textOf_applied htarget rfl, henclosed (by decide) (by decide)]
  · have hmakes := Tracking.makes_methodCall hclear (Tracking.hands_text target) name
      (Tracking.hands_list_texts texts 1 none)
    exact (Build.shownText_eq hmakes settings).trans
      (congrArg _ (Token.textOf_memberCall htexts htarget name))
  · have hmakes : Tracking.entire.Makes _ (Build.initializer (.datum (.text target)) args)
        (.applied target (.block texts)) :=
      Tracking.makes_initializer hclear (Tracking.hands_text target)
        (Tracking.hands_list_texts texts 0 (some true))
    refine (Build.shownText_eq hmakes settings).trans (congrArg _ ?_)
    rw [Token.textOf_applied htarget rfl, Token.textOf_block htexts]
    simp only [String.append_assoc]

/-- A call that is measured and then has its commas changed. -/
def Script.remarkedCall : Script :=
  [.bind "f" (.call (.datum (.text "f")) (.each [.datum (.text "x")])), .measure (.named "f"),
    .set "f" Property.commas.name (.datum (.bool true))]

/-- A call of a member that is too long for a line, with texts that are not, and with texts that are
too long as well. -/
theorem Session.Runs.shownText_lists_member :
    let session := ((Step.runAll Script.remarkedCall).run {}).2
    let settings : Settings :=
      { maxLength := 8, maxChildren := 3, indentWidth := 2, newline := "\n" }
    let shown (texts : List String) := Build.shownText settings
      (Build.methodCall (.datum (.text "xs")) "map" (.each (Build.textArgs texts))) session.store
    Runs Step.KeepsBody {} session ∧ (session.store.memo.get 4).length = some 4 ∧
      shown ["a", "b"] = .ok "xs\n  .map(a, b)" ∧
      shown ["abc", "defg", "hi"] = .ok "xs\n  .map(\n    abc, \n    defg, \n    hi\n  )" := by
  intro session settings shown
  have hrun : Runs Step.KeepsBody {} session :=
    runs_runAll {} (by simp [Script.remarkedCall, Step.KeepsBody, Property.name])
  have hshown (texts : List String) (htexts : ∀ text ∈ texts, text ≠ "") :=
    hrun.shownText_lists settings htexts (show "<" ≠ "" by decide) (show ">" ≠ "" by decide)
      (show "xs" ≠ "" by decide) "map"
  obtain ⟨-, -, -, hshort, -⟩ := hshown ["a", "b"] (by decide)
  obtain ⟨-, -, -, hlong, -⟩ := hshown ["abc", "defg", "hi"] (by decide)
  exact ⟨hrun, by decide +kernel, hshort.trans (by decide +kernel),
    hlong.trans (by decide +kernel)⟩

end TokenLayout
