import Mathlib.Algebra.GroupWithZero.Nat
import TokenLayout.Proofs.Alignment
import TokenLayout.Proofs.Influence
import TokenLayout.Proofs.Refusals
import TokenLayout.Proofs.Spelling

/-!
# How deep a line is set

A group that takes several lines starts a line with each of its breakable parts. If such a part is a
leaf with a text, the line starts with that text, and its level can be read off the way down to the
leaf (`Token.depth`): every token on it adds its inset, but for the root, and every bracket round a
broken body one more.

An occurrence is told from others by its address in the tree (`Token.LineStart`). Its strokes are a
break and the text right after it (`Token.LineStart.exists_strokes`), so no later request changes
the level of the line, and two occurrences stand at different points of the flat text
(`Token.LineStart.offset_ne`). `Store.level_of_lineStart` puts this together.
-/

namespace TokenLayout

/-! ## Numbered lines -/

namespace Lines

/-- The line of this number starts at `offset` of the flat text, is set at `level`, and its text
begins with `s`. -/
structure HasLine (lines : Lines) (number offset level : Nat) (s : String) : Prop where
  offset : lines.breaks[number]? = some offset
  line : ∃ more, lines.rest[number]? = some ⟨level, s ++ more⟩

variable {lines : Lines} {number offset level : Nat} {s : String}

/-- A numbered line is the last one or one of those before it. -/
theorem lt_or_eq_of_getElem?_concat {init : List Line} {last line : Line}
    (h : (init ++ [last])[number]? = some line) :
    number < init.length ∧ init[number]? = some line ∨ number = init.length ∧ last = line := by
  rcases Nat.lt_trichotomy number init.length with hlt | heq | hgt
  · exact Or.inl ⟨hlt, by rwa [List.getElem?_append_left hlt] at h⟩
  · subst heq
    exact Or.inr ⟨rfl, by simpa using h⟩
  · have hnone : (init ++ [last])[number]? = none := List.getElem?_eq_none (by simp; omega)
    simp [hnone] at h

/-- A line that has a text keeps its number, its level and the beginning of its text. -/
theorem HasLine.apply (h : lines.HasLine number offset level s) (hs : s ≠ "") (stroke : Stroke) :
    (lines.apply stroke).HasLine number offset level s := by
  obtain ⟨hoffset, more, hline⟩ := h
  rcases lines.eq_nil_or_concat with ⟨head, rfl⟩ | ⟨head, init, last, rfl⟩
  · simp at hline
  have hlength : (breaks ⟨head, init⟩).length = init.length := length_breaksFrom _ _
  have hwhere := lt_or_eq_of_getElem?_concat hline
  cases stroke with
  | text s' =>
    refine ⟨by rwa [Lines.apply, breaks_append], ?_⟩
    rw [Lines.apply, append_concat]
    rcases hwhere with ⟨hlt, hinit⟩ | ⟨rfl, rfl⟩
    · exact ⟨more, by rwa [List.getElem?_append_left hlt]⟩
    · exact ⟨more ++ s', by simp [String.append_assoc]⟩
  | newline level' =>
    by_cases hl : last.text = ""
    · -- The last line has no text, so it is another one.
      rcases hwhere with ⟨hlt, hinit⟩ | ⟨-, rfl⟩
      · rw [Lines.apply, startLine_concat_of_empty _ _ hl]
        rw [breaks_concat, List.getElem?_append_left (hlength ▸ hlt)] at hoffset
        refine ⟨?_, more, by rwa [List.getElem?_append_left hlt]⟩
        rwa [breaks_concat, List.getElem?_append_left (hlength ▸ hlt)]
      · simp [hs] at hl
    · rw [Lines.apply, startLine_concat_of_ne _ _ hl]
      have hlt := (List.getElem?_eq_some_iff.1 hline).1
      have hlt' := (List.getElem?_eq_some_iff.1 hoffset).1
      exact ⟨by rwa [breaks_concat, List.getElem?_append_left hlt'],
        more, by rwa [List.getElem?_append_left hlt]⟩

theorem HasLine.foldl (h : lines.HasLine number offset level s) (hs : s ≠ "")
    (strokes : List Stroke) : (strokes.foldl Lines.apply lines).HasLine number offset level s := by
  induction strokes generalizing lines with
  | nil => exact h
  | cons stroke strokes ih => exact ih (h.apply hs stroke)

/-- The number of a line is the place of its offset among the breaks. -/
theorem HasLine.idxOf_eq (h : lines.HasLine number offset level s) (htight : lines.Tight) :
    lines.breaks.idxOf offset = number := by
  have hnodup : lines.breaks.Nodup := htight.pairwise_breaks.imp Nat.ne_of_lt
  obtain ⟨hlt, rfl⟩ := List.getElem?_eq_some_iff.1 h.offset
  exact hnodup.idxOf_getElem number hlt

theorem HasLine.number_ne {number' offset' level' : Nat} {s' : String}
    (h : lines.HasLine number offset level s) (h' : lines.HasLine number' offset' level' s')
    (hne : offset ≠ offset') : number ≠ number' := by
  rintro rfl
  exact hne (Option.some.inj (h.offset.symm.trans h'.offset))

/-- A break with a text right after it starts a line with that text, whatever comes before and
after. -/
theorem exists_hasLine_ofStrokes (before after : List Stroke) (level : Nat) (hs : s ≠ "") :
    ∃ number, (ofStrokes (before ++ .newline level :: .text s :: after)).HasLine number
      (Stroke.contents before).length level s := by
  have hflat : (ofStrokes before).trimmed.flat = Stroke.contents before := by
    rw [flat_trimmed, flat_ofStrokes]
  have hstart := ofStrokes_concat_line before level s
  generalize (ofStrokes before).trimmed = lines at hflat hstart
  have hline : (ofStrokes (before ++ [.newline level, .text s])).HasLine lines.rest.length
      (Stroke.contents before).length level s := by
    rw [hstart, ← hflat]
    have hlength : lines.breaks.length = lines.rest.length := length_breaksFrom _ _
    refine ⟨?_, "", by simp⟩
    rw [breaks_concat, ← hlength, List.getElem?_append_right le_rfl]
    simp
  refine ⟨lines.rest.length, ?_⟩
  have hall := hline.foldl hs after
  rwa [← ofStrokes_append, List.append_assoc] at hall

end Lines

/-! ## The way down to a leaf -/

namespace Token

/-- Somewhere in the tree a group that is broken has a breakable leaf with a text right below it.
The address says which child to go to, step by step, and `path` are the tokens on the way, with the
root first and the leaf last. -/
inductive LineStart (broken : Token → Bool) : (t : Token) → (address : List Nat) →
    (path : List Token) → (text : String) → Prop
  | part {tag : Tag} {commas : Bool} {forced : Option Bool} {parts : List Token} {i : Nat}
      {leafTag : Tag} {role : LeafRole} {text : String}
      (hbroken : broken (group tag commas forced parts) = true)
      (hleaf : parts[i]? = some (leaf leafTag role text)) (hbreakable : leafTag.breakable = true)
      (htext : text ≠ "") :
      LineStart broken (group tag commas forced parts) [i]
        [group tag commas forced parts, leaf leafTag role text] text
  | child {t child : Token} {i : Nat} {address : List Nat} {path : List Token} {text : String}
      (hchild : t.children[i]? = some child) (h : LineStart broken child address path text) :
      LineStart broken t (i :: address) (t :: path) text

/-- A bracket round a broken body, which is set one level deeper. -/
def deepens (broken : Token → Bool) : Token → Bool
  | bracket _ _ body => broken body
  | _ => false

/-- The level that a path leads to from level zero: the insets on it, but for that of the root, and
the brackets round broken bodies. -/
def depth (broken : Token → Bool) (path : List Token) : Nat :=
  (path.tail.map fun t => t.tag.inset).sum + path.countP (deepens broken)

/-- The offset of a child in the flat text of a token. -/
def childStart : Token → (i : Nat) → Nat
  | group _ commas _ parts, i => partStart commas true (parts.take i)
  | bracket _ frame body, _ => frame.bodyStart body
  | _, _ => 0

/-- The offset of what stands at an address in the flat text of the tree. -/
def offset : Token → (address : List Nat) → Nat
  | _, [] => 0
  | t, i :: address => t.childStart i +
    match t.children[i]? with
    | some child => child.offset address
    | none => 0

variable {broken : Token → Bool} {t child : Token} {i : Nat} {address : List Nat}
  {path : List Token} {text : String}

theorem LineStart.head? (h : LineStart broken t address path text) : path.head? = some t := by
  cases h <;> rfl

theorem offset_cons (hchild : t.children[i]? = some child) (address : List Nat) :
    t.offset (i :: address) = t.childStart i + child.offset address := by
  rw [offset, hchild]

/-- A token more at the top of a path sets all below it deeper by the inset that was left out, and
by one level if it is a bracket round a broken body. -/
theorem depth_cons (t : Token) {child : Token} (hchild : path.head? = some child) :
    depth broken (t :: path) =
      (if t.deepens broken then 1 else 0) + child.tag.inset + depth broken path := by
  obtain ⟨rest, rfl⟩ := List.head?_eq_some_iff.1 hchild
  rw [depth, depth, List.countP_cons]
  simp only [List.tail_cons, List.map_cons, List.sum_cons]
  omega

/-! ## The strokes on the way -/

theorem partStrokes_append (broken : Token → Bool) (commas split first : Bool)
    (before after : List Token) (level : Nat) (fresh : Bool) :
    partStrokes broken commas split first (before ++ after) level fresh =
      partStrokes broken commas split first before level fresh ++
        partStrokes broken commas split (first && before.isEmpty) after level
          (Stroke.freshAfterAll fresh
            (partStrokes broken commas split first before level fresh)) := by
  induction before generalizing first fresh with
  | nil => simp [partStrokes, Stroke.freshAfterAll]
  | cons part before ih =>
    rw [List.cons_append, partStrokes, partStrokes, ih]
    simp [Stroke.freshAfterAll_append, List.append_assoc]

theorem eq_take_append_cons_drop {parts : List Token} {part : Token}
    (hpart : parts[i]? = some part) : parts = parts.take i ++ part :: parts.drop (i + 1) := by
  obtain ⟨hi, rfl⟩ := List.getElem?_eq_some_iff.1 hpart
  rw [List.getElem_cons_drop, List.take_append_drop]

/-- The strokes of a part are among those of its group, after the break before it if there is
one. -/
theorem exists_strokes_part (broken : Token → Bool) (tag : Tag) (commas : Bool)
    (forced : Option Bool) {parts : List Token} {i : Nat} {part : Token}
    (hpart : parts[i]? = some part) (level : Nat) (fresh : Bool) :
    ∃ before after fresh',
      (group tag commas forced parts).strokes broken level fresh =
        before ++ (if broken (group tag commas forced parts) && part.tag.breakable then
            [.newline (level + part.tag.inset)] else []) ++
          part.strokes broken (level + part.tag.inset) fresh' ++ after ∧
      (Stroke.contents before).length = partStart commas true (parts.take i) := by
  rw [strokes]
  generalize broken (group tag commas forced parts) = split
  have hstrokes := partStrokes_append broken commas split true (parts.take i)
    (part :: parts.drop (i + 1)) level fresh
  rw [← eq_take_append_cons_drop hpart, partStrokes, lead] at hstrokes
  simp only [← List.append_assoc] at hstrokes
  refine ⟨_, _, _, hstrokes, ?_⟩
  rw [Stroke.contents_append, contents_partStrokes, String.length_append, partStart]
  split <;> simp [Stroke.content]

/-- The strokes of a child are among those of its token. -/
theorem exists_strokes_child (broken : Token → Bool) (hchild : t.children[i]? = some child)
    (level : Nat) (fresh : Bool) :
    ∃ before after fresh',
      t.strokes broken level fresh = before ++
        child.strokes broken (level + (if t.deepens broken then 1 else 0) + child.tag.inset)
          fresh' ++ after ∧
      (Stroke.contents before).length = t.childStart i := by
  cases t with
  | group tag commas forced parts =>
    have hpart : parts[i]? = some child := hchild
    obtain ⟨before, after, fresh', hstrokes, hlength⟩ :=
      exists_strokes_part broken tag commas forced hpart level fresh
    refine ⟨_, after, fresh', hstrokes, ?_⟩
    rw [Stroke.contents_append, String.length_append, hlength]
    split <;> simp [Stroke.content, childStart]
  | bracket tag frame body =>
    obtain ⟨rfl, rfl⟩ : i = 0 ∧ body = child := by
      simpa [children, List.getElem?_singleton] using hchild
    have hinner : (if broken body then level + 1 else level) =
        level + if (bracket tag frame body).deepens broken then 1 else 0 := by
      rw [deepens]
      split <;> rfl
    rw [strokes, hinner]
    refine ⟨_, _, _, rfl, ?_⟩
    rw [Frame.contents_before, Frame.length_before_body, childStart]
  | leaf | blank | foreign => simp [children] at hchild

/-- The strokes of a token break the line before such a leaf, at the level that the path says, and
go on with its text. -/
theorem LineStart.exists_strokes (h : LineStart broken t address path text) (level : Nat)
    (fresh : Bool) :
    ∃ before after,
      t.strokes broken level fresh =
        before ++ .newline (level + depth broken path) :: .text text :: after ∧
      (Stroke.contents before).length = t.offset address := by
  induction h generalizing level fresh with
  | @part tag commas forced parts i leafTag role text hbroken hleaf hbreakable htext =>
    obtain ⟨before, after, _, hstrokes, hlength⟩ :=
      exists_strokes_part broken tag commas forced hleaf level fresh
    refine ⟨before, after, ?_, ?_⟩
    · simpa [hbroken, Token.tag, hbreakable, strokes, depth, deepens] using hstrokes
    · rw [hlength, offset_cons hleaf, offset, childStart, Nat.add_zero]
  | child hchild h ih =>
    obtain ⟨before, after, fresh', hstrokes, hlength⟩ :=
      exists_strokes_child broken hchild level fresh
    obtain ⟨before', after', hstrokes', hlength'⟩ := ih _ fresh'
    refine ⟨before ++ before', after' ++ after, ?_, ?_⟩
    · rw [hstrokes, hstrokes', depth_cons _ h.head?]
      simp [Nat.add_assoc]
    · rw [Stroke.contents_append, String.length_append, hlength, hlength', offset_cons hchild]

/-! ## Different leaves, different points -/

theorem LineStart.text_ne (h : LineStart broken t address path text) : text ≠ "" := by
  induction h with
  | part hbroken hleaf hbreakable htext => exact htext
  | child hchild h ih => exact ih

theorem LineStart.offset_add_le (h : LineStart broken t address path text) :
    t.offset address + text.length ≤ t.flat.length := by
  obtain ⟨before, after, hstrokes, hlength⟩ := h.exists_strokes 0 false
  have hflat := congrArg (fun strokes => (Stroke.contents strokes).length) hstrokes
  simp only [contents_strokes, Stroke.contents_append, Stroke.contents_cons, Stroke.content,
    String.length_append, String.length_empty] at hflat
  omega

/-- A text stands within that of the child on the way to it. -/
theorem LineStart.within (h : LineStart broken t address path text) :
    ∃ i rest child, address = i :: rest ∧ t.children[i]? = some child ∧
      t.childStart i ≤ t.offset address ∧
      t.offset address + text.length ≤ t.childStart i + child.flat.length := by
  cases h with
  | part hbroken hleaf hbreakable htext =>
    refine ⟨_, [], _, rfl, hleaf, ?_⟩
    rw [offset_cons hleaf, offset, flat]
    omega
  | child hchild h =>
    have hle := h.offset_add_le
    refine ⟨_, _, _, rfl, hchild, ?_⟩
    rw [offset_cons hchild]
    omega

theorem partStart_add_le (commas first : Bool) (before : List Token) (part : Token)
    (after : List Token) :
    partStart commas first before + part.flat.length ≤
      partStart commas first (before ++ part :: after) := by
  induction before generalizing first with
  | nil =>
    rw [List.nil_append, partStart_cons]
    omega
  | cons other before ih =>
    have hle := ih false
    rw [List.cons_append, partStart_cons, partStart_cons]
    omega

/-- The text of a child comes before those of the children after it. -/
theorem childStart_add_le {j : Nat} (hchild : t.children[i]? = some child)
    (hlt : i < j) (hj : j < t.children.length) :
    t.childStart i + child.flat.length ≤ t.childStart j := by
  cases t with
  | group tag commas forced parts =>
    have htake : (parts.take j)[i]? = some child := by rwa [List.getElem?_take_of_lt hlt]
    have hbefore : (parts.take j).take i = parts.take i := by
      rw [List.take_take, Nat.min_eq_left hlt.le]
    have hle := partStart_add_le commas true (parts.take i) child ((parts.take j).drop (i + 1))
    rwa [← hbefore, ← eq_take_append_cons_drop htake, hbefore] at hle
  | bracket tag frame body =>
    simp only [children, List.length_singleton] at hj
    omega
  | leaf | blank | foreign => simp [children] at hj

theorem LineStart.offset_lt {j : Nat} {rest rest' : List Nat} {path' : List Token}
    {text' : String} (h : LineStart broken t (i :: rest) path text)
    (h' : LineStart broken t (j :: rest') path' text') (hlt : i < j) :
    t.offset (i :: rest) < t.offset (j :: rest') := by
  obtain ⟨_, _, child, ⟨⟩, hchild, -, hend⟩ := h.within
  obtain ⟨_, _, child', ⟨⟩, hchild', hstart, -⟩ := h'.within
  have hpos : text.length ≠ 0 := by simpa using h.text_ne
  have hle := childStart_add_le hchild hlt (List.getElem?_eq_some_iff.1 hchild').1
  omega

/-- Two different leaves stand at different points. -/
theorem LineStart.offset_ne {address' : List Nat} {path' : List Token} {text' : String}
    (h : LineStart broken t address path text) (h' : LineStart broken t address' path' text')
    (hne : address ≠ address') : t.offset address ≠ t.offset address' := by
  induction h generalizing address' path' with
  | @part tag commas forced parts i leafTag role text hbroken hleaf hbreakable htext =>
    have hline := LineStart.part hbroken hleaf hbreakable htext
    obtain ⟨j, rest', -, rfl, -⟩ := h'.within
    rcases Nat.lt_trichotomy i j with hlt | rfl | hgt
    · exact (hline.offset_lt h' hlt).ne
    · -- Nothing is below a leaf.
      cases h' with
      | part => exact absurd rfl hne
      | child hchild' h' =>
        obtain rfl : leaf leafTag role text = _ := Option.some.inj (hleaf.symm.trans hchild')
        obtain ⟨_, _, _, -, hbelow, -⟩ := h'.within
        simp [children] at hbelow
    · exact (h'.offset_lt hline hgt).ne'
  | @child t child i address path text hchild h ih =>
    have hline := LineStart.child hchild h
    obtain ⟨j, rest', -, rfl, -⟩ := h'.within
    rcases Nat.lt_trichotomy i j with hlt | rfl | hgt
    · exact (hline.offset_lt h' hlt).ne
    · cases h' with
      | part _ hleaf =>
        obtain rfl : child = _ := Option.some.inj (hchild.symm.trans hleaf)
        obtain ⟨_, _, _, -, hbelow, -⟩ := h.within
        simp [children] at hbelow
      | child hchild' h' =>
        obtain rfl : child = _ := Option.some.inj (hchild.symm.trans hchild')
        have hrest := ih h' fun heq => hne (by rw [heq])
        rw [offset_cons hchild, offset_cons hchild]
        omega
    · exact (h'.offset_lt hline hgt).ne'

/-- In a store, such a leaf starts a line of the tree. -/
theorem LineStart.exists_hasLine {limits : Thresholds} {store : Store}
    (h : LineStart (Token.broken limits store.memo) t address path text) (hw : t.Writable)
    (hs : t.StandsIn store) :
    ∃ number, (t.lines limits store.memo).HasLine number (t.offset address)
      (depth (Token.broken limits store.memo) path) text := by
  obtain ⟨before, after, hstrokes, hlength⟩ := h.exists_strokes 0 false
  rw [Nat.zero_add] at hstrokes
  rw [lines_eq_ofStrokes hw hs, hstrokes, ← hlength]
  exact Lines.exists_hasLine_ofStrokes before after _ h.text_ne

/-- The lines that such leaves start can be numbered by their addresses. -/
theorem exists_number {limits : Thresholds} {store : Store} (hw : t.Writable)
    (hs : t.StandsIn store) :
    let broken := Token.broken limits store.memo
    ∃ number : (address : List Nat) → Nat,
      (∀ address path text, t.LineStart broken address path text →
        (t.lines limits store.memo).HasLine (number address) (t.offset address)
          (depth broken path) text) ∧
      ∀ address path text address' path' text', t.LineStart broken address path text →
        t.LineStart broken address' path' text' → address ≠ address' →
          number address ≠ number address' := by
  intro broken
  have hline : ∀ address path text, t.LineStart broken address path text →
      (t.lines limits store.memo).HasLine
        ((t.lines limits store.memo).breaks.idxOf (t.offset address)) (t.offset address)
        (depth broken path) text := by
    intro address path text hstart
    obtain ⟨number, hnumber⟩ := hstart.exists_hasLine hw hs
    rwa [hnumber.idxOf_eq (Lines.tight_ofStrokes _)]
  refine ⟨_, hline, fun address path text address' path' text' hstart hstart' hne => ?_⟩
  exact (hline _ _ _ hstart).number_ne (hline _ _ _ hstart') (hstart.offset_ne hstart' hne)

/-! ## Other marks -/

section MapTag

variable {f : Tag → Tag}

theorem readLengths_mapTags {ts : List Token}
    (h : ∀ t ∈ ts, (t.mapTag f).readLength = t.readLength) :
    readLengths (mapTags f ts) = readLengths ts := by
  induction ts with
  | nil => rfl
  | cons t ts ih =>
    rw [mapTags, readLengths, readLengths, h t (by simp), ih fun u hu => h u (by simp [hu])]

theorem readLength_mapTag (hf : ∀ tag, (f tag).id = tag.id) (t : Token) :
    (t.mapTag f).readLength = t.readLength := by
  induction t using children_induction with
  | step t ih =>
    cases t with
    | leaf | blank | foreign => simp only [mapTag, readLength]
    | group tag commas forced parts =>
      have hparts : readLengths (mapTags f parts) = readLengths parts := readLengths_mapTags ih
      rw [mapTag, readLength, readLength, hf, hparts]
    | bracket tag frame body =>
      rw [mapTag, readLength, readLength, ih body (List.mem_singleton_self body)]

theorem readAnyMultiline_mapTags {limits : Thresholds} {ts : List Token}
    (h : ∀ t ∈ ts, (t.mapTag f).readMultiline limits = t.readMultiline limits) :
    readAnyMultiline limits (mapTags f ts) = readAnyMultiline limits ts := by
  induction ts with
  | nil => rfl
  | cons t ts ih =>
    rw [mapTags, readAnyMultiline, readAnyMultiline, h t (by simp),
      ih fun u hu => h u (by simp [hu])]

/-- Marks have no part in what is measured. -/
theorem readMultiline_mapTag (hf : ∀ tag, (f tag).id = tag.id) (limits : Thresholds) (t : Token) :
    (t.mapTag f).readMultiline limits = t.readMultiline limits := by
  induction t using children_induction with
  | step t ih =>
    cases t with
    | leaf | blank | foreign => simp only [mapTag, readMultiline]
    | bracket tag frame body =>
      rw [mapTag, readMultiline, readMultiline, ih body (List.mem_singleton_self body)]
    | group tag commas forced parts =>
      have hcount : (mapTags f parts).length = parts.length := by simp [mapTags_eq_map]
      have hlength := readLength_mapTag hf (group tag commas none parts)
      rw [mapTag] at hlength
      cases forced with
      | some decision => rw [mapTag, readMultiline, readMultiline, hf]
      | none =>
        have hany : readAnyMultiline limits (mapTags f parts) = readAnyMultiline limits parts :=
          readAnyMultiline_mapTags ih
        rw [mapTag, readMultiline, readMultiline, hf, hlength, hcount, hany]

theorem childStart_mapTag (t : Token) (i : Nat) : (t.mapTag f).childStart i = t.childStart i := by
  cases t with
  | leaf | blank | foreign => rfl
  | group tag commas forced parts =>
    have htake : (mapTags f parts).take i = mapTags f (parts.take i) := by
      simp only [mapTags_eq_map, List.map_take]
    have hempty : (mapTags f (parts.take i)).isEmpty = (parts.take i).isEmpty := by
      rw [mapTags_eq_map, List.isEmpty_map]
    rw [mapTag, childStart, childStart, partStart, partStart, htake, flats_mapTags, hempty]
  | bracket tag frame body =>
    rw [mapTag, childStart, childStart, Frame.bodyStart, Frame.bodyStart, Frame.bare, Frame.bare,
      isSingle_mapTag]

theorem offset_mapTag (t : Token) (address : List Nat) :
    (t.mapTag f).offset address = t.offset address := by
  induction address generalizing t with
  | nil => simp only [offset]
  | cons i address ih =>
    rw [offset, offset, childStart_mapTag, children_mapTag, List.getElem?_map]
    cases t.children[i]? with
    | none => rfl
    | some child => simp [ih]

/-- Marks that are no longer the same leave the lines to be started where they are, as long as the
same tokens are breakable. -/
theorem LineStart.mapTag (h : LineStart broken t address path text)
    (hbroken : ∀ u, broken (u.mapTag f) = broken u)
    (hbreakable : ∀ tag, (f tag).breakable = tag.breakable) :
    LineStart broken (t.mapTag f) address (path.map (Token.mapTag f)) text := by
  induction h with
  | @part tag commas forced parts i leafTag role text hgroup hleaf hleafTag htext =>
    have hsplit := (hbroken (group tag commas forced parts)).trans hgroup
    rw [Token.mapTag] at hsplit
    refine .part hsplit ?_ ((hbreakable leafTag).trans hleafTag) htext
    rw [mapTags_eq_map, List.getElem?_map, hleaf]
    rfl
  | child hchild h ih => exact .child (by rw [children_mapTag, List.getElem?_map, hchild]; rfl) ih

theorem depth_mapTag (hbroken : ∀ u, broken (u.mapTag f) = broken u)
    (hpath : ∀ u ∈ path.tail, (f u.tag).inset = u.tag.inset) :
    depth broken (path.map (Token.mapTag f)) = depth broken path := by
  have hdeepens : ∀ u : Token, (u.mapTag f).deepens broken = u.deepens broken := by
    intro u
    cases u with
    | bracket tag frame body => exact hbroken body
    | _ => rfl
  have hinsets : ((path.map (Token.mapTag f)).tail.map fun u => u.tag.inset) =
      path.tail.map fun u => u.tag.inset := by
    rw [← List.map_tail, List.map_map]
    exact List.map_congr_left fun u hu => by simp [tag_mapTag, hpath u hu]
  rw [depth, depth, hinsets, List.countP_map]
  congr 2
  exact funext hdeepens

end MapTag

end Token

/-- The tag with another inset, if it is that of the token `other`. -/
def Tag.reinset (other : TokenId) (inset : Nat) (tag : Tag) : Tag :=
  if tag.id = other then { tag with inset } else tag

theorem Tag.id_reinset (other : TokenId) (inset : Nat) (tag : Tag) :
    (tag.reinset other inset).id = tag.id := by
  rw [reinset]
  split <;> rfl

theorem Tag.breakable_reinset (other : TokenId) (inset : Nat) (tag : Tag) :
    (tag.reinset other inset).breakable = tag.breakable := by
  rw [reinset]
  split <;> rfl

namespace Store

variable {store : Store} {t : Token}

/-- The store with another inset for the token `other`. -/
def reinset (store : Store) (other : TokenId) (inset : Nat) : Store :=
  store.modify other fun entry => { entry with marks := { entry.marks with inset } }

theorem standsIn_reinset (hs : t.StandsIn store) (other : TokenId) (inset : Nat) :
    (t.mapTag (Tag.reinset other inset)).StandsIn (store.reinset other inset) := by
  rw [Token.StandsIn, Token.every_mapTag]
  intro u hu
  have hentry := hs u hu
  rw [Token.tag_mapTag, Tag.id_reinset, Token.node_mapTag (Tag.id_reinset other inset), reinset,
    find?_modify, hentry, Tag.reinset]
  split_ifs with heq heq' heq'
  · rfl
  · exact absurd heq.symm heq'
  · exact absurd heq'.symm heq
  · rfl

/-- After another inset such leaves start lines of the same levels, unless the token stands on the
path. -/
theorem exists_lines_reinset {id : TokenId} (ht : store.tree? id = some t) (hw : t.Writable)
    (settings : Settings) (other : TokenId) (inset : Nat) :
    let broken := Token.broken settings.toThresholds store.memo
    ∃ lines : Lines,
      ((Build.render settings (.token id)).run (store.reinset other inset)).1 =
        .ok (.ofText t.kind settings.newline
          (lines.build settings.indentWidth settings.newline)) ∧
      lines.flat = t.flat ∧
      ∀ address path text, t.LineStart broken address path text →
        (∀ u ∈ path.tail, u.tag.id ≠ other) →
          ∃ number, lines.HasLine number (t.offset address) (Token.depth broken path) text := by
  intro broken
  obtain ⟨rfl, hs⟩ := standsIn_of_tree? ht
  have hstands := standsIn_reinset hs other inset
  have hw' := hw.mapTag (Tag.reinset other inset)
  have ht' := tree?_of_standsIn hstands
  rw [Token.tag_mapTag, Tag.id_reinset] at ht'
  have hrender := Build.result_render_of_writable settings ht' hw'
  rw [Token.kind_mapTag] at hrender
  refine ⟨_, hrender, ?_, fun address path text hstart hother => ?_⟩
  · rw [Token.flat_lines hw', Token.flat_mapTag]
  · have hbroken : ∀ u : Token, broken (u.mapTag (Tag.reinset other inset)) = broken u := by
      intro u
      show Token.broken _ _ _ = Token.broken _ _ _
      rw [Token.broken, Token.broken, Token.readMultiline_mapTag (Tag.id_reinset other inset)]
    have hpath : ∀ u ∈ path.tail, (u.tag.reinset other inset).inset = u.tag.inset := by
      intro u hu
      rw [Tag.reinset, if_neg (hother u hu)]
    -- The memo is the same, so the same tokens are broken.
    have hline : (t.mapTag (Tag.reinset other inset)).LineStart
        (Token.broken settings.toThresholds (store.reinset other inset).memo) address
        (path.map (Token.mapTag (Tag.reinset other inset))) text :=
      hstart.mapTag hbroken (Tag.breakable_reinset other inset)
    rw [← Token.offset_mapTag, ← Token.depth_mapTag hbroken hpath]
    exact hline.exists_hasLine hw' hstands

theorem result_multiline_of_writable (hw : t.Writable) (hs : t.StandsIn store)
    (limits : Thresholds) :
    ((Build.multiline limits t.tag.id).run store).1 = .ok (t.broken limits store.memo) := by
  rw [Build.result_multiline limits (tree?_of_standsIn hs), Token.multilineIn?_of_writable hw hs]
  rfl

end Store

/-- A breakable leaf with a text in a broken group starts a line of the rendered text. The level of
the line is the depth of the way down to the leaf, and no other such leaf starts the same line. If
another inset is given to a token that is not on the way, or only at its top, the leaf starts a line
of that level as before. -/
theorem Store.level_of_lineStart {store : Store} {id : TokenId} {t : Token}
    (ht : store.tree? id = some t) (h : t.Writable) (settings : Settings) :
    let broken := Token.broken settings.toThresholds store.memo
    (∀ u ∈ t.walk,
      ((Build.multiline settings.toThresholds u.tag.id).run store).1 = .ok (broken u)) ∧
    (∃ lines : Lines,
      ((Build.render settings (.token id)).run store).1 = .ok (.ofText t.kind settings.newline
        (lines.build settings.indentWidth settings.newline)) ∧
      lines.flat = t.flat ∧
      ∃ number : (address : List Nat) → Nat,
        (∀ address path text, t.LineStart broken address path text →
          lines.HasLine (number address) (t.offset address) (Token.depth broken path) text) ∧
        ∀ address path text address' path' text', t.LineStart broken address path text →
          t.LineStart broken address' path' text' → address ≠ address' →
            number address ≠ number address') ∧
    ∀ (other : TokenId) (inset : Int),
      let store' := ((Build.setProperty (.token other) Property.inset.name
        (.datum (.int inset))).run store).2
      ∃ lines : Lines,
        ((Build.render settings (.token id)).run store').1 = .ok (.ofText t.kind settings.newline
          (lines.build settings.indentWidth settings.newline)) ∧
        lines.flat = t.flat ∧
        ∀ address path text, t.LineStart broken address path text →
          (∀ u ∈ path.tail, u.tag.id ≠ other) →
            ∃ number, lines.HasLine number (t.offset address) (Token.depth broken path) text := by
  intro broken
  have hs := (standsIn_of_tree? ht).2
  have hrender := Build.result_render_of_writable settings ht h
  have hflat := Token.flat_lines h settings.toThresholds store.memo
  refine ⟨fun u hu => ?_, ⟨_, hrender, hflat, Token.exists_number h hs⟩, fun other inset => ?_⟩
  · rw [Token.walk_eq_preorder] at hu
    exact result_multiline_of_writable (h.below hu) (hs.below hu) settings.toThresholds
  · intro store'
    rcases Int.lt_or_le inset 0 with hneg | hnonneg
    · have hstore' : store' = store :=
        congrArg Prod.snd (Build.run_setProperty_inset_of_neg other hneg)
      rw [hstore']
      exact ⟨_, hrender, hflat, fun address path text hstart _ => hstart.exists_hasLine h hs⟩
    · obtain ⟨n, rfl⟩ := Int.eq_ofNat_of_zero_le hnonneg
      have hstore' : store' = store.reinset other n :=
        congrArg Prod.snd (Build.run_setProperty_inset other n)
      rw [hstore']
      exact exists_lines_reinset ht h settings other n

/-- A list of the same leaf twice, in a bracket in a block of its own after another leaf, which is
then set deeper. -/
theorem Store.level_of_lineStart_shared :
    let store : Store := { entries := #[⟨{ breakable := true, inset := 1 }, .leaf .word "a"⟩,
      ⟨{ inset := 2 }, .group true none [0, 0]⟩,
      ⟨{ inset := 1 }, .bracket { opening := "(", closing := ")" } 1⟩,
      ⟨{}, .bracket { opening := "<", closing := ">", ownLine := true } 2⟩,
      ⟨{ breakable := true }, .leaf .word "z"⟩, ⟨{}, .group false none [4, 3]⟩] }
    let settings : Settings := { maxLength := 1 }
    let broken := Token.broken settings.toThresholds store.memo
    ∃ t path, store.tree? 5 = some t ∧ t.Writable ∧ Token.depth broken path = 6 ∧
      t.LineStart broken [1, 0, 0, 0] path "a" ∧ t.LineStart broken [1, 0, 0, 1] path "a" ∧
      (∃ (lines : Lines) (number : List Nat → Nat),
        lines.HasLine (number [1, 0, 0, 0]) (t.offset [1, 0, 0, 0]) 6 "a" ∧
        lines.HasLine (number [1, 0, 0, 1]) (t.offset [1, 0, 0, 1]) 6 "a" ∧
        number [1, 0, 0, 0] ≠ number [1, 0, 0, 1]) ∧
      ∃ (lines : Lines) (number : Nat), lines.HasLine number (t.offset [1, 0, 0, 0]) 6 "a" ∧
        ((Build.render settings (.token 5)).run ((Build.setProperty (.token 4)
          Property.inset.name (.datum (.int 7))).run store).2).1 =
          .ok (.ofText t.kind settings.newline
            (lines.build settings.indentWidth settings.newline)) := by
  intro store settings broken
  obtain ⟨t, ht, hw, path, hdepth, hpath, hfirst, hsecond⟩ :
      ∃ t, store.tree? 5 = some t ∧ t.Writable ∧ ∃ path, Token.depth broken path = 6 ∧
        (∀ u ∈ path.tail, u.tag.id ≠ 4) ∧
        t.LineStart broken [1, 0, 0, 0] path "a" ∧ t.LineStart broken [1, 0, 0, 1] path "a" :=
    ⟨_, rfl, by decide, _, by decide, by decide,
      .child rfl (.child rfl (.child rfl (.part (by decide) rfl rfl (by decide)))),
      .child rfl (.child rfl (.child rfl (.part (by decide) rfl rfl (by decide))))⟩
  obtain ⟨-, ⟨lines, -, -, number, hlines, hdistinct⟩, hother⟩ := level_of_lineStart ht hw settings
  obtain ⟨lines', hrender', -, hlines'⟩ := hother 4 7
  obtain ⟨number', hnumber'⟩ := hlines' _ _ _ hfirst hpath
  refine ⟨t, path, ht, hw, hdepth, hfirst, hsecond, ⟨lines, number, ?_, ?_, ?_⟩,
    lines', number', hdepth ▸ hnumber', hrender'⟩
  · exact hdepth ▸ hlines _ _ _ hfirst
  · exact hdepth ▸ hlines _ _ _ hsecond
  · exact hdistinct _ _ _ _ _ _ hfirst hsecond (by decide)

end TokenLayout
