import Mathlib.Data.List.TakeWhile
import TokenLayout.Proofs.FlatText

/-!
# Lines can be read back

A rendered text is cut at its terminators, from the left and without overlaps. If no text of the
tree has a line end in it, that gives the lines of the layout, each with its padding
(`Token.pieces_render`), and so the number of lines that is logged is right.

The terminator may overlap itself. That does no harm, since a piece has no character in common with
it (`Text.pieces_flatten`): an occurrence starts exactly where a break was written, and what is left
of the text after it starts with the next line.
-/

namespace TokenLayout

/-! ## Cutting a text -/

namespace Text

variable {sep : List Char}

/-- The rest of an occurrence is passed over. -/
theorem piecesAfter_append (sep skipped rest : List Char) :
    piecesAfter sep skipped.length (skipped ++ rest) = pieces sep rest := by
  induction skipped with
  | nil => rfl
  | cons c skipped ih => rwa [List.length_cons, List.cons_append, piecesAfter]

theorem pieces_sep_append (hsep : sep ≠ []) (rest : List Char) :
    pieces sep (sep ++ rest) = [] :: pieces sep rest := by
  obtain ⟨first, others, rfl⟩ := List.exists_cons_of_ne_nil hsep
  have hprefix : (first :: others).isPrefixOf (first :: (others ++ rest)) = true :=
    List.isPrefixOf_iff_prefix.2 ⟨rest, rfl⟩
  rw [pieces, List.cons_append, piecesAfter, if_pos hprefix, List.length_cons,
    Nat.add_sub_cancel, piecesAfter_append]

/-- No occurrence starts in a text that has none of the separator's characters. -/
theorem pieces_append_of_disjoint (hsep : sep ≠ []) {s rest piece : List Char}
    {more : List (List Char)} (hs : ∀ c ∈ s, c ∉ sep) (h : pieces sep rest = piece :: more) :
    pieces sep (s ++ rest) = (s ++ piece) :: more := by
  induction s with
  | nil => exact h
  | cons c s ih =>
    have hprefix : ¬sep.isPrefixOf (c :: (s ++ rest)) = true := by
      intro hprefix
      obtain ⟨first, others, rfl⟩ := List.exists_cons_of_ne_nil hsep
      obtain ⟨rfl, -⟩ := List.cons_prefix_cons.1 (List.isPrefixOf_iff_prefix.1 hprefix)
      exact hs first (by simp) (by simp)
    have hrest : piecesAfter sep 0 (s ++ rest) = (s ++ piece) :: more :=
      ih fun d hd => hs d (by simp [hd])
    rw [pieces, List.cons_append, piecesAfter, if_neg hprefix, hrest]
    rfl

/-- Pieces that have no character of the separator are found again. -/
theorem pieces_flatten (hsep : sep ≠ []) {first : List Char} {others : List (List Char)}
    (hfirst : ∀ c ∈ first, c ∉ sep) (hothers : ∀ piece ∈ others, ∀ c ∈ piece, c ∉ sep) :
    pieces sep (first ++ others.flatMap fun piece => sep ++ piece) = first :: others := by
  induction others generalizing first with
  | nil => simpa using pieces_append_of_disjoint hsep hfirst (rfl : pieces sep [] = [[]])
  | cons piece others ih =>
    have hrest := ih (hothers piece (by simp)) fun p hp => hothers p (by simp [hp])
    have hcut := pieces_sep_append hsep (piece ++ others.flatMap fun piece => sep ++ piece)
    rw [hrest] at hcut
    simpa [List.append_assoc] using pieces_append_of_disjoint hsep hfirst hcut

end Text

/-! ## Line terminators -/

namespace Settings

theorem trimLineEnds_eq_nil_iff (cs : List Char) :
    trimLineEnds cs = [] ↔ ∀ c ∈ cs, isLineEnd c = true := by
  rw [trimLineEnds, List.reverse_eq_nil_iff, List.dropWhile_eq_nil_iff]
  constructor
  · intro h
    -- What is left of the text would have to start with something that is no line end.
    have hnil : cs.dropWhile isLineEnd = [] := by
      by_contra hne
      have hend := h _ (List.mem_reverse.2 (List.head_mem hne))
      rw [List.head_dropWhile_not isLineEnd hne] at hend
      cases hend
    exact List.dropWhile_eq_nil_iff.1 hnil
  · intro h c hc
    exact h c ((List.dropWhile_sublist isLineEnd).subset (List.mem_reverse.1 hc))

/-- What is taken for a terminator is not empty and has nothing but line ends. -/
theorem terminator_eq_ok {value : Datum} {s : String} (h : terminator value = .ok s) :
    s.toList ≠ [] ∧ ∀ c ∈ s.toList, isLineEnd c = true := by
  cases value with
  | text s' =>
    rw [terminator] at h
    split at h
    · cases h
    · rename_i hcond
      obtain rfl : s' = s := Except.ok.inj h
      obtain ⟨hne, htrim⟩ : s' ≠ "" ∧ trimLineEnds s'.toList = [] := by
        simpa [not_or] using hcond
      exact ⟨by simpa using hne, (trimLineEnds_eq_nil_iff _).1 htrim⟩
  | _ =>
    simp only [terminator] at h
    split at h <;> cases h

theorem exists_of_bind_eq_ok {α β : Type} {x : Except Fault α} {f : α → Except Fault β} {b : β}
    (h : (x >>= f) = .ok b) : ∃ a, x = .ok a ∧ f a = .ok b := by
  cases x with
  | error fault => cases h
  | ok a => exact ⟨a, rfl, h⟩

/-- The terminator of settings that are made from fields. -/
theorem lineEnds_of_ofFields {fields : Fields} {settings : Settings}
    (h : ofFields fields = .ok settings) :
    settings.newline.toList ≠ [] ∧ ∀ c ∈ settings.newline.toList, isLineEnd c = true := by
  rw [ofFields] at h
  split at h
  · cases h
  · obtain ⟨width, -, h⟩ := exists_of_bind_eq_ok h
    obtain ⟨maxLength, -, h⟩ := exists_of_bind_eq_ok h
    obtain ⟨maxChildren, -, h⟩ := exists_of_bind_eq_ok h
    obtain ⟨newline, hnewline, h⟩ := exists_of_bind_eq_ok h
    cases h
    exact terminator_eq_ok hnewline

end Settings

/-! ## Texts without line ends -/

/-- No character of the text is a line end. -/
def InLine (s : String) : Prop :=
  ∀ c ∈ s.toList, Settings.isLineEnd c = false

instance (s : String) : Decidable (InLine s) :=
  inferInstanceAs (Decidable (∀ c ∈ s.toList, Settings.isLineEnd c = false))

theorem inLine_append {s s' : String} : InLine (s ++ s') ↔ InLine s ∧ InLine s' := by
  simp only [InLine, String.toList_append, List.mem_append, or_imp, forall_and]

theorem inLine_join {texts : List String} :
    InLine (String.join texts) ↔ ∀ s ∈ texts, InLine s := by
  simp only [InLine, String.toList_join, List.mem_flatMap]
  exact ⟨fun h s hs c hc => h c ⟨s, hs, hc⟩, fun h c ⟨s, hs, hc⟩ => h s hs c hc⟩

theorem inLine_spaces (n : Int) : InLine (spaces n) := by
  intro c hc
  obtain ⟨-, rfl⟩ : 0 < n ∧ c = ' ' := by simpa [spaces] using hc
  rfl

namespace Token

/-- The texts that a token has of its own. -/
def texts : Token → List String
  | leaf _ _ text => [text]
  | bracket _ frame _ => [frame.opening, frame.closing]
  | _ => []

theorem inLine_flats {commas first : Bool} {parts : List Token}
    (h : ∀ part ∈ parts, InLine part.flat) : InLine (flats commas first parts) := by
  have hseparator : InLine separatorText := by simp [InLine, separatorText, Settings.isLineEnd]
  have hempty : InLine "" := by simp [InLine]
  induction parts generalizing first with
  | nil => exact hempty
  | cons part parts ih =>
    rw [flats, inLine_append, inLine_append]
    refine ⟨⟨?_, h part (by simp)⟩, ih fun p hp => h p (by simp [hp])⟩
    split
    · exact hseparator
    · exact hempty

/-- Nothing that is put between the texts of a tree is a line end. -/
theorem inLine_flat {t : Token} (h : t.Every fun u => ∀ s ∈ u.texts, InLine s) :
    InLine t.flat := by
  induction t using children_induction with
  | step t ih =>
    obtain ⟨hroot, hbelow⟩ := every_iff.1 h
    cases t with
    | leaf tag role text => exact hroot text (by simp [texts])
    | group tag commas forced parts =>
      rw [flat]
      exact inLine_flats fun part hpart => ih part hpart (hbelow part hpart)
    | bracket tag frame body =>
      have hbody : InLine body.flat :=
        ih body (List.mem_singleton_self body) (hbelow body (List.mem_singleton_self body))
      rw [flat]
      split
      · exact hbody
      · rw [inLine_append, inLine_append]
        exact ⟨⟨hroot _ (by simp [texts]), hbody⟩, hroot _ (by simp [texts])⟩
    | blank tag => simp [InLine, flat]
    | foreign tag length multiline => simp [InLine, flat]

end Token

/-! ## The lines of a text -/

namespace Lines

/-- The lines as they are written: the first text, and then for each break the padding and the text
of the line it starts. -/
def written (width : Int) (lines : Lines) : List String :=
  lines.head :: lines.rest.map fun line => spaces (line.level * width) ++ line.text

theorem build_toList (width : Int) (terminator : String) (lines : Lines) :
    (lines.build width terminator).toList = lines.head.toList ++
      ((lines.written width).tail.map String.toList).flatMap fun piece =>
        terminator.toList ++ piece := by
  simp [build, written, List.flatMap_map, String.append_assoc]

/-- Lines of texts without line ends are found again in the text that is built from them. -/
theorem pieces_build {lines : Lines} (h : InLine lines.flat) (width : Int) {terminator : String}
    (hne : terminator.toList ≠ [])
    (hends : ∀ c ∈ terminator.toList, Settings.isLineEnd c = true) :
    Text.pieces terminator.toList (lines.build width terminator).toList =
      (lines.written width).map String.toList := by
  have hdisjoint : ∀ s : String, InLine s → ∀ c ∈ s.toList, c ∉ terminator.toList := by
    intro s hs c hc hmem
    have hend := hends c hmem
    rw [hs c hc] at hend
    cases hend
  obtain ⟨hhead, hrest⟩ := inLine_append.1 h
  rw [inLine_join] at hrest
  rw [build_toList]
  refine Text.pieces_flatten hne (hdisjoint _ hhead) ?_
  simp only [written, List.tail_cons, List.map_map, List.forall_mem_map]
  intro line hline
  exact hdisjoint _ (inLine_append.2 ⟨inLine_spaces _, hrest _ (List.mem_map_of_mem hline)⟩)

end Lines

/-- The lines of a rendered tree can be read off its text, if none of the tree's texts has a line
end in it: cut at the terminators of any settings that can be made, the text gives what stands
before the first break, and then for each break its padding and what stands before the next one. The
number of lines that is logged is the number of breaks and one more. -/
theorem Token.pieces_render {fields : Fields} {settings : Settings}
    (hsettings : Settings.ofFields fields = .ok settings) {t : Token} (h : t.Writable)
    (htexts : t.Every fun u => ∀ s ∈ u.texts, InLine s) (memo : Memo) :
    let lines := t.lines settings.toThresholds memo
    ∃ (rendering : Rendering) (memo' : Memo),
      t.render settings memo = (.ok rendering, memo') ∧
      rendering.text = lines.build settings.indentWidth settings.newline ∧
      Text.pieces settings.newline.toList rendering.text.toList =
        (lines.head :: lines.rest.map fun line =>
          spaces (line.level * settings.indentWidth) ++ line.text).map String.toList ∧
      rendering.lines = lines.breaks.length + 1 ∧
      ∃ start, rendering.log =
        start ++ " chars, " ++ toString (lines.breaks.length + 1) ++ " lines" := by
  intro lines
  obtain ⟨memo', hrender⟩ := render_of_writable h settings memo
  obtain ⟨hne, hends⟩ := Settings.lineEnds_of_ofFields hsettings
  have hflat : InLine lines.flat := by
    rw [flat_lines h]
    exact inLine_flat htexts
  have hpieces := Lines.pieces_build hflat settings.indentWidth hne hends
  have hcount : (Text.pieces settings.newline.toList
      (lines.build settings.indentWidth settings.newline).toList).length =
        lines.breaks.length + 1 := by
    have hbreaks : lines.breaks.length = lines.rest.length := Lines.length_breaksFrom _ _
    rw [hpieces, hbreaks]
    simp [Lines.written]
  refine ⟨_, memo', hrender, rfl, hpieces, hcount, ?_⟩
  rw [← hcount]
  exact ⟨_, rfl⟩

/-- A block with a list in it, under a terminator that overlaps itself. -/
theorem Token.pieces_render_overlapping :
    let fields : Fields := [("newline", .text "\n\r\n"), ("indent_width", .int 1)]
    let settings : Settings := { indentWidth := 1, newline := "\n\r\n" }
    let item : Token := .leaf { breakable := true, id := 0 } .word "a"
    let block : Token := .bracket { id := 2 } { opening := "<", closing := ">", ownLine := true }
      (.group { id := 1 } true (some true) [item, item])
    let root : Token := .group { id := 4 } false none [.leaf { id := 3 } .word "x", block]
    Settings.ofFields fields = .ok settings ∧ root.Writable ∧
      (root.Every fun u => ∀ s ∈ u.texts, InLine s) ∧
      ∃ rendering memo, root.render settings {} = (.ok rendering, memo) ∧
        rendering.text = "x\n\r\n<\n\r\n a, \n\r\n a\n\r\n>" ∧
        Text.pieces "\n\r\n".toList rendering.text.toList =
          ["x", "<", " a, ", " a", ">"].map String.toList ∧
        rendering.lines = 5 := by
  intro fields settings item block root
  have hsettings : Settings.ofFields fields = .ok settings := rfl
  have hw : root.Writable := by decide
  have htexts : root.Every fun u => ∀ s ∈ u.texts, InLine s := by
    simp [root, block, item, Every, preorder, preorders, texts, InLine, Settings.isLineEnd]
  have hlines : root.lines settings.toThresholds {} =
      ⟨"x", [⟨0, "<"⟩, ⟨1, "a, "⟩, ⟨1, "a"⟩, ⟨0, ">"⟩]⟩ := by decide +kernel
  have h := pieces_render hsettings hw htexts {}
  rw [hlines] at h
  obtain ⟨rendering, memo, hrender, htext, hpieces, hcount, -⟩ := h
  exact ⟨hsettings, hw, htexts, rendering, memo, hrender, htext, hpieces, hcount⟩

end TokenLayout
