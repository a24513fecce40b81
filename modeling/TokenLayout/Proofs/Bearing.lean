import TokenLayout.Proofs.Influence
import TokenLayout.Proofs.Shapes

/-!
# The tree that is built

What a token spells is not enough to know its lines, which also depend on marks and on what was
measured before. So here the whole tree is followed, but for its numbers, as long as nothing of it
is measured (`Tracking.entire`). Tokens may come in, and those that are there keep their marks too.
A list marks its items, and therefore the items are to be new, as the leaves for texts are
(`Tracking.hands_list_texts`).

The text of such a token is read off the tree, with no store in it (`Tracking.Shows.text_render`).
-/

namespace TokenLayout

/-! ## Trees without numbers -/

namespace Token

/-- The tree says that the token takes several lines. -/
def wraps (limits : Thresholds) (t : Token) : Bool :=
  t.multiline? limits == some true

section Numbers

variable (f : Tag → Tag)

mutual

/-- The length of a tree does not depend on its tags. -/
theorem length?_mapTag : ∀ t : Token, (t.mapTag f).length? = t.length?
  | leaf .. => rfl
  | group _ _ _ parts => by rw [mapTag, length?, length?, lengths?_mapTags parts]
  | bracket _ _ body => by rw [mapTag, length?, length?, length?_mapTag body]
  | blank _ => rfl
  | foreign .. => rfl

theorem lengths?_mapTags : ∀ ts : List Token, lengths? (mapTags f ts) = lengths? ts
  | [] => rfl
  | t :: ts => by rw [mapTags, lengths?, lengths?, length?_mapTag t, lengths?_mapTags ts]

end

mutual

/-- Nor does the decision. -/
theorem multiline?_mapTag (limits : Thresholds) :
    ∀ t : Token, (t.mapTag f).multiline? limits = t.multiline? limits
  | leaf .. => rfl
  | group _ _ (some _) _ => rfl
  | group _ _ none parts => by
    rw [mapTag, multiline?_group, multiline?_group, lengths?_mapTags,
      anyMultiline?_mapTags limits parts, mapTags_eq_map, List.length_map]
  | bracket _ _ body => by
    rw [mapTag, multiline?_bracket, multiline?_bracket, multiline?_mapTag limits body]
  | blank _ => rfl
  | foreign .. => rfl

theorem anyMultiline?_mapTags (limits : Thresholds) :
    ∀ ts : List Token, anyMultiline? limits (mapTags f ts) = anyMultiline? limits ts
  | [] => rfl
  | t :: ts => by
    rw [mapTags, anyMultiline?, anyMultiline?, multiline?_mapTag limits t,
      anyMultiline?_mapTags limits ts]

end

/-- Whether a tree wraps does not depend on its tags. -/
theorem wraps_mapTag (limits : Thresholds) (t : Token) :
    (t.mapTag f).wraps limits = t.wraps limits := by
  rw [wraps, multiline?_mapTag, wraps]

theorem lead_mapTag {f : Tag → Tag} (hf : ∀ tag, (f tag).toMarks = tag.toMarks)
    (commas split first : Bool) (part : Token) (level : Nat) :
    lead commas split first (part.mapTag f) level = lead commas split first part level := by
  simp only [lead, tag_mapTag, hf]

variable {f} {broken broken' : Token → Bool}

mutual

/-- The strokes of a tree depend on its marks, not on its numbers, and on which of its own tokens
are broken. -/
theorem strokes_mapTag (hf : ∀ tag, (f tag).toMarks = tag.toMarks) :
    ∀ (t : Token) (level : Nat) (fresh : Bool),
      (∀ u ∈ t.preorder, broken (u.mapTag f) = broken' u) →
        (t.mapTag f).strokes broken level fresh = t.strokes broken' level fresh
  | leaf .., _, _, _ => rfl
  | group tag commas forced parts, level, fresh, h => by
    have hroot := h _ (mem_preorder_self _)
    rw [mapTag] at hroot
    rw [mapTag, strokes, strokes, hroot]
    refine partStrokes_mapTags hf commas _ true parts level fresh fun u hu => h u ?_
    exact List.mem_cons_of_mem _ hu
  | bracket _ frame body, level, fresh, h => by
    have hbelow : ∀ u ∈ body.preorder, broken (u.mapTag f) = broken' u :=
      fun u hu => h u (List.mem_cons_of_mem _ hu)
    have hbody := hbelow body body.mem_preorder_self
    have hbare : frame.bare (body.mapTag f) = frame.bare body := by
      rw [Frame.bare, isSingle_mapTag, Frame.bare]
    simp only [mapTag, strokes, hbody, hbare, tag_mapTag, hf,
      strokes_mapTag hf body _ _ hbelow]
  | blank _, _, _, _ => rfl
  | foreign .., _, _, _ => rfl

theorem partStrokes_mapTags (hf : ∀ tag, (f tag).toMarks = tag.toMarks) (commas split : Bool) :
    ∀ (first : Bool) (parts : List Token) (level : Nat) (fresh : Bool),
      (∀ u ∈ preorders parts, broken (u.mapTag f) = broken' u) →
        partStrokes broken commas split first (mapTags f parts) level fresh =
          partStrokes broken' commas split first parts level fresh
  | _, [], _, _, _ => rfl
  | first, part :: parts, level, fresh, h => by
    have hpart : ∀ u ∈ part.preorder, broken (u.mapTag f) = broken' u :=
      fun u hu => h u (List.mem_append_left _ hu)
    have hparts : ∀ u ∈ preorders parts, broken (u.mapTag f) = broken' u :=
      fun u hu => h u (List.mem_append_right _ hu)
    simp only [mapTags, partStrokes, lead_mapTag hf, tag_mapTag, hf,
      strokes_mapTag hf part _ _ hpart, partStrokes_mapTags hf commas split false parts _ _ hparts]

end

end Numbers

/-! ## Trees that nothing is measured of -/

/-- No token of the tree has a filled cell. -/
def UnmeasuredIn (memo : Memo) (t : Token) : Prop :=
  t.Every fun u => (memo.get u.tag.id).measured = false

variable {memo : Memo} {limits : Thresholds} {t : Token}

namespace UnmeasuredIn

/-- Nothing is in the cell for the length of the root. -/
theorem length_eq_none (h : t.UnmeasuredIn memo) : (memo.get t.tag.id).length = none := by
  have hroot := Every.root h
  rw [Cells.measured, Bool.or_eq_false_iff] at hroot
  simpa using hroot.1

/-- Nothing is in the cell for the decision of the root. -/
theorem multiline_eq_none (h : t.UnmeasuredIn memo) : (memo.get t.tag.id).multiline = none := by
  have hroot := Every.root h
  rw [Cells.measured, Bool.or_eq_false_iff] at hroot
  simpa using hroot.2

/-- The memo says nothing, so the length is the one of the tree. -/
theorem lengthIn?_eq (h : t.UnmeasuredIn memo) : t.lengthIn? memo = t.length? := by
  induction t using children_induction with
  | step t ih =>
    cases t with
    | leaf => rfl
    | blank => rfl
    | foreign => rfl
    | bracket tag frame body =>
      rw [lengthIn?, length?, ih body (by simp [children]) (Every.body h)]
    | group tag commas forced parts =>
      have hparts : lengthsIn? memo parts = lengths? parts :=
        Store.Sound.lengthsIn?_eq_lengths? fun p hp => ih p hp (Every.part h hp)
      have hcell : (memo.get tag.id).length = none := h.length_eq_none
      rw [lengthIn?, hcell, Option.none_or, hparts, length?]

/-- The memo says nothing, so the decision is the one of the tree. -/
theorem multilineIn?_eq (h : t.UnmeasuredIn memo) :
    t.multilineIn? limits memo = t.multiline? limits := by
  induction t using children_induction with
  | step t ih =>
    cases t with
    | leaf => rfl
    | blank => rfl
    | foreign => rfl
    | bracket tag frame body =>
      rw [multilineIn?, multiline?, ih body (by simp [children]) (Every.body h)]
    | group tag commas forced parts =>
      have hcell : (memo.get tag.id).multiline = none := h.multiline_eq_none
      cases forced with
      | some decision => rw [multilineIn?, multiline?, hcell, Option.none_or]
      | none =>
        have hparts : anyMultilineIn? limits memo parts = anyMultiline? limits parts :=
          Store.Sound.anyMultilineIn?_eq_anyMultiline? fun p hp => ih p hp (Every.part h hp)
        rw [multilineIn?, multiline?_group, hcell, Option.none_or, h.lengthIn?_eq, hparts, length?]
        rfl

variable {store : Store}

/-- A token is broken on the page if its tree wraps. -/
theorem broken_eq (h : t.UnmeasuredIn store.memo) (hw : t.Writable) (hs : t.StandsIn store) :
    t.broken limits store.memo = t.wraps limits := by
  have hfound : t.multilineIn? limits store.memo = some (t.broken limits store.memo) :=
    multilineIn?_of_writable hw hs
  rw [h.multilineIn?_eq] at hfound
  simp [wraps, hfound]

/-- A tree that nothing is measured of has the strokes that it has without its numbers. -/
theorem strokes_eq (h : t.UnmeasuredIn store.memo) (hw : t.Writable) (hs : t.StandsIn store)
    (level : Nat) (fresh : Bool) : t.strokes (broken limits store.memo) level fresh =
      t.anonymous.strokes (wraps limits) level fresh := by
  have hmarks (tag : Tag) : tag.unnumbered.toMarks = tag.toMarks := rfl
  refine (strokes_mapTag hmarks t level fresh fun u hu => ?_).symm
  rw [wraps_mapTag]
  exact (broken_eq (Every.below h hu) (hw.below hu) (hs.below hu)).symm

end UnmeasuredIn

end Token

/-! ## Tracking whole trees -/

namespace Tracking

/-- Following trees with their marks, of which nothing is measured. -/
def entire : Tracking where
  seen marks := ⟨marks, 0⟩
  holds cells := cells.measured = false
  keeps := Store.Extends
  holds_of_open h := h
  keeps_of_extends h := h
  trans := Store.Extends.trans
  mono := by
    rintro store store' _ _ ⟨t, rfl, hs, hw, hopen, rfl⟩ h
    refine ⟨t, rfl, fun u hu => h.entry _ _ (hs u hu), hw, fun u hu => ?_, rfl⟩
    rw [h.memo]
    exact hopen u hu

/-- What is rendered under a token is read off its tree. -/
theorem Shows.text_render {store : Store} {id : TokenId} {shape : Token}
    (h : entire.Shows store id shape) (settings : Settings) :
    ((Build.render settings (.token id)).run store).1.map Rendering.text =
      .ok ((Lines.ofStrokes (shape.strokes (Token.wraps settings.toThresholds) 0 false)).build
        settings.indentWidth settings.newline) := by
  obtain ⟨t, rfl, hs, hw, hopen, rfl⟩ := h
  have hunmeasured : t.UnmeasuredIn store.memo := hopen
  rw [Build.result_render_of_writable settings (Store.tree?_of_standsIn hs) hw,
    Token.lines_eq_ofStrokes hw hs, hunmeasured.strokes_eq hw hs]
  rfl

end Tracking

/-! ## Lists of texts -/

/-- An item of a list of texts. -/
def Token.item (text : String) : Token :=
  .leaf ⟨{ breakable := true }, 0⟩ .word text

/-- Texts separated by commas. -/
def Token.listing (inset : Nat) (forced : Option Bool) (texts : List String) : Token :=
  .group ⟨{ inset }, 0⟩ true forced (texts.map item)

namespace Build

/-- Texts as they are handed over. -/
def textArgs (texts : List String) : List Arg :=
  texts.map fun text => .datum (.text text)

/-- Texts become leaves of their own. -/
theorem grows_parts_texts : ∀ (texts : List String) {store : Store}, store.ClearAhead →
    Grows store (parts (textArgs texts)) fun store' args => store.Extends store' ∧
      ∃ ids, args = (ids.map some).map partArg ∧ List.Forall₂ (fun id text =>
        store.entries.size ≤ id ∧ store'.find? id = some ⟨{}, .leaf .word text⟩) ids texts
  | [], store, _ => grows_pure ⟨.refl store, [], rfl, .nil⟩
  | text :: texts, store, hclear => by
    have hparts : parts (textArgs (text :: texts)) = (do
        let first ← word text
        let rest ← parts (textArgs texts)
        return .token first :: rest) := rfl
    rw [hparts]
    refine (grows_make hclear {} (.leaf .word text)).bind fun id store₁ hgrows h₁ => ?_
    obtain ⟨hext, hnew, hentry, -⟩ := h₁
    refine (grows_parts_texts texts (hclear.mono hgrows)).bind fun args store₂ _ h₂ => ?_
    obtain ⟨hext', ids, rfl, hleaves⟩ := h₂
    exact grows_pure ⟨hext.trans hext', id :: ids, rfl, .cons ⟨hnew, hext'.entry _ _ hentry⟩
      (hleaves.imp fun _ _ ⟨hnew', hentry'⟩ => ⟨hext.size.trans hnew', hentry'⟩)⟩

end Build

namespace Tracking

open Build

/-- Texts become the items of a list. -/
theorem hands_list_texts {store : Store} (texts : List String) (inset : Nat)
    (forced : Option Bool) :
    entire.Hands store (list (.each (textArgs texts)) inset forced)
      (some (.listing inset forced texts)) := by
  intro base _ hclear
  have hlist : list (.each (textArgs texts)) inset forced = (do
      let args ← parts (textArgs texts)
      return .token (← groupOf args true forced { inset })) := rfl
  rw [hlist]
  refine (grows_parts_texts texts hclear).bind ?_
  rintro _ store₁ hgrows ⟨hext, ids, rfl, hleaves⟩
  obtain ⟨hnew, hentries⟩ := (List.forall₂_and_left ids texts).1 hleaves
  have hne : ∀ id ∈ (ids.map some).reduceOption, id ≠ store₁.entries.size := by
    rw [reduceOption_map_some]
    exact ((List.forall₂_and_left ids texts).1
      (hentries.imp fun _ _ hentry => ⟨Store.ne_size_of_find? hentry, hentry⟩)).1
  refine (grows_groupOf (hclear.mono hgrows) hne true forced { inset }).bind ?_
  rintro _ store₂ - ⟨rfl, hdone⟩
  rw [reduceOption_map_some] at hdone
  -- The leaves are marked as items, but they are new, so no token of the store is touched.
  have hext' : base.Extends store₂ := hdone.extends hext fun _ => hnew
  refine grows_pure ⟨hext', some _, rfl, .some (shows_group hdone.group ?_ ?_)⟩
  · rw [hext'.memo]
    exact hclear _ hext.size
  · rw [List.forall₂_map_right_iff]
    refine ((List.forall₂_and_left ids texts).2 ⟨fun id hid => hid, hleaves⟩).imp ?_
    rintro id text ⟨hmem, hnew, hentry⟩
    refine shows_leaf ((hdone.entry id _ hentry).trans ?_) ?_
    · rw [if_pos ⟨rfl, hmem⟩]
      rfl
    · rw [hext'.memo]
      exact hclear id hnew

end Tracking

end TokenLayout
