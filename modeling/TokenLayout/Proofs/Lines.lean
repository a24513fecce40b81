import TokenLayout.Page

/-!
# The lines of a page

What strokes put on an empty page depends on its width and terminator only in how a break is
written. `Lines` is what they put there before either is known: the text before the first break,
and for each break the level and the text of the line it starts. `Lines.build` writes the breaks
and the padding, `Lines.flat` leaves them out, and `Lines.breaks` says where in the flat text they
fall.

* `Page.build_applyAll` : strokes on an empty page give the text of their lines;
* `Lines.flat_ofStrokes` : the flat text is what the strokes ask for, one after the other;
* `Lines.tight_ofStrokes` : only the last line can be without text, so no two breaks fall on the
  same point.
-/

namespace TokenLayout

/-! ## What strokes ask for -/

namespace Stroke

/-- The text a stroke asks for. -/
def content : Stroke → String
  | text s => s
  | newline _ => ""

/-- The text that strokes ask for, one after the other. -/
def contents (strokes : List Stroke) : String :=
  String.join (strokes.map content)

/-- The offsets at which strokes ask for a new line, the first of them standing at `offset`. -/
def requestsFrom (offset : Nat) : List Stroke → List Nat
  | [] => []
  | text s :: strokes => requestsFrom (offset + s.length) strokes
  | newline _ :: strokes => offset :: requestsFrom offset strokes

@[simp] theorem contents_nil : contents [] = "" :=
  rfl

@[simp] theorem contents_cons (stroke : Stroke) (strokes : List Stroke) :
    contents (stroke :: strokes) = stroke.content ++ contents strokes := by
  simp [contents]

@[simp] theorem contents_append (strokes strokes' : List Stroke) :
    contents (strokes ++ strokes') = contents strokes ++ contents strokes' := by
  simp [contents]

end Stroke

/-! ## Lines -/

/-- A line that a break starts. -/
structure Line where
  level : Nat
  text : String
deriving DecidableEq, Repr

/-- A text cut at its breaks. -/
structure Lines where
  /-- The text before the first break. -/
  head : String := ""
  /-- The lines that breaks start, in order. -/
  rest : List Line := []
deriving DecidableEq, Repr

namespace Lines

/-- The last line was started by a break and has no text yet. -/
def fresh (lines : Lines) : Bool :=
  match lines.rest.getLast? with
  | none => false
  | some last => last.text.isEmpty

/-- Puts a text at the end of the last line. -/
def append (lines : Lines) (s : String) : Lines :=
  match lines.rest.getLast? with
  | none => { lines with head := lines.head ++ s }
  | some last =>
    { lines with rest := lines.rest.dropLast ++ [{ last with text := last.text ++ s }] }

/-- Starts a line at `level`, in place of the last one if that has no text yet. -/
def startLine (lines : Lines) (level : Nat) : Lines :=
  { lines with
    rest := (if lines.fresh then lines.rest.dropLast else lines.rest) ++ [⟨level, ""⟩] }

/-- Does what a stroke asks for. -/
def apply (lines : Lines) : Stroke → Lines
  | .text s => lines.append s
  | .newline level => lines.startLine level

/-- The lines that strokes make on an empty page. -/
def ofStrokes (strokes : List Stroke) : Lines :=
  strokes.foldl apply {}

/-- The text with its breaks, each a terminator and the padding of the line it starts. -/
def build (width : Int) (terminator : String) (lines : Lines) : String :=
  lines.head ++ String.join
    (lines.rest.map fun line => terminator ++ spaces (line.level * width) ++ line.text)

/-- The text without its breaks and their padding. -/
def flat (lines : Lines) : String :=
  lines.head ++ String.join (lines.rest.map Line.text)

/-- Where the breaks before some lines fall, the first of them at `offset`. -/
def breaksFrom (offset : Nat) : List Line → List Nat
  | [] => []
  | line :: lines => offset :: breaksFrom (offset + line.text.length) lines

/-- The offsets in the flat text at which breaks fall. -/
def breaks (lines : Lines) : List Nat :=
  breaksFrom lines.head.length lines.rest

/-- Every line that a break starts has a text, but for the last. -/
def Tight (lines : Lines) : Prop :=
  ∀ line ∈ lines.rest.dropLast, line.text ≠ ""

/-! ## The last line -/

variable (head : String) (init : List Line) (last : Line)

@[simp] theorem fresh_nil : (⟨head, []⟩ : Lines).fresh = false :=
  rfl

@[simp] theorem fresh_concat : (⟨head, init ++ [last]⟩ : Lines).fresh = last.text.isEmpty := by
  simp [fresh]

@[simp] theorem append_nil (s : String) : (⟨head, []⟩ : Lines).append s = ⟨head ++ s, []⟩ :=
  rfl

@[simp] theorem append_concat (s : String) :
    (⟨head, init ++ [last]⟩ : Lines).append s =
      ⟨head, init ++ [{ last with text := last.text ++ s }]⟩ := by
  simp [append]

@[simp] theorem startLine_nil (level : Nat) :
    (⟨head, []⟩ : Lines).startLine level = ⟨head, [⟨level, ""⟩]⟩ :=
  rfl

/-- A break at the start of a line only moves the line to another level. -/
theorem startLine_concat_of_empty {last : Line} (hl : last.text = "") (level : Nat) :
    (⟨head, init ++ [last]⟩ : Lines).startLine level = ⟨head, init ++ [⟨level, ""⟩]⟩ := by
  simp [startLine, hl]

/-- A break behind text starts a line. -/
theorem startLine_concat_of_ne {last : Line} (hl : last.text ≠ "") (level : Nat) :
    (⟨head, init ++ [last]⟩ : Lines).startLine level =
      ⟨head, (init ++ [last]) ++ [⟨level, ""⟩]⟩ := by
  simp [startLine, hl]

@[simp] theorem build_concat (width : Int) (terminator : String) :
    build width terminator ⟨head, init ++ [last]⟩ =
      build width terminator ⟨head, init⟩ ++
        (terminator ++ spaces (last.level * width) ++ last.text) := by
  simp [build, String.append_assoc]

@[simp] theorem flat_concat : flat ⟨head, init ++ [last]⟩ = flat ⟨head, init⟩ ++ last.text := by
  simp [flat, String.append_assoc]

/-- Lines are a text alone, or have a last line. -/
theorem eq_nil_or_concat (lines : Lines) :
    (∃ head, lines = ⟨head, []⟩) ∨ ∃ head init last, lines = ⟨head, init ++ [last]⟩ := by
  obtain ⟨head, rest⟩ := lines
  rcases List.eq_nil_or_concat rest with rfl | ⟨init, last, rfl⟩
  · exact Or.inl ⟨head, rfl⟩
  · exact Or.inr ⟨head, init, last, by rw [List.concat_eq_append]⟩

/-- The last line breaks behind the text of all lines before it. -/
theorem breaksFrom_concat (offset : Nat) :
    breaksFrom offset (init ++ [last]) =
      breaksFrom offset init ++ [offset + (String.join (init.map Line.text)).length] := by
  induction init generalizing offset with
  | nil => simp [breaksFrom]
  | cons line lines ih => simp [breaksFrom, ih, Nat.add_assoc]

@[simp] theorem breaks_concat :
    breaks ⟨head, init ++ [last]⟩ = breaks ⟨head, init⟩ ++ [(flat ⟨head, init⟩).length] := by
  simp [breaks, flat, breaksFrom_concat]

theorem length_breaksFrom (offset : Nat) (rest : List Line) :
    (breaksFrom offset rest).length = rest.length := by
  induction rest generalizing offset with
  | nil => rfl
  | cons line rest ih => simp [breaksFrom, ih]

@[simp] theorem append_empty (lines : Lines) : lines.append "" = lines := by
  rcases lines.eq_nil_or_concat with ⟨head, rfl⟩ | ⟨head, init, last, rfl⟩ <;> simp

/-- Text is put at the end of the page. -/
theorem build_append (width : Int) (terminator s : String) (lines : Lines) :
    (lines.append s).build width terminator = lines.build width terminator ++ s := by
  rcases lines.eq_nil_or_concat with ⟨head, rfl⟩ | ⟨head, init, last, rfl⟩
  · simp [build]
  · simp [String.append_assoc]

/-! ## One stroke -/

/-- A stroke adds its content and nothing else. -/
theorem flat_apply (lines : Lines) (stroke : Stroke) :
    (lines.apply stroke).flat = lines.flat ++ stroke.content := by
  rcases lines.eq_nil_or_concat with ⟨head, rfl⟩ | ⟨head, init, last, rfl⟩
  · cases stroke <;> simp [apply, flat, Stroke.content]
  · cases stroke with
    | text s => simp [apply, Stroke.content, String.append_assoc]
    | newline level =>
      by_cases hl : last.text = ""
      · simp [apply, startLine_concat_of_empty _ _ hl, Stroke.content, hl]
      · rw [apply, startLine_concat_of_ne _ _ hl, flat_concat, Stroke.content]

/-- No stroke leaves an empty line behind. -/
theorem tight_apply {lines : Lines} (h : lines.Tight) (stroke : Stroke) :
    (lines.apply stroke).Tight := by
  rcases lines.eq_nil_or_concat with ⟨head, rfl⟩ | ⟨head, init, last, rfl⟩
  · cases stroke <;> simp [apply, Tight]
  · simp only [Tight, List.dropLast_concat] at h
    cases stroke with
    | text s => simpa [apply, Tight] using h
    | newline level =>
      by_cases hl : last.text = ""
      · simpa [apply, startLine_concat_of_empty _ _ hl, Tight] using h
      · simp only [apply, startLine_concat_of_ne _ _ hl, Tight, List.dropLast_concat,
          List.mem_append, List.mem_singleton]
        rintro line (hline | rfl)
        · exact h line hline
        · exact hl

/-- A new line puts a break at the end of the text, or finds one there. -/
theorem mem_breaks_startLine (lines : Lines) (level p : Nat) :
    p ∈ (lines.startLine level).breaks ↔ p ∈ lines.breaks ∨ p = lines.flat.length := by
  rcases lines.eq_nil_or_concat with ⟨head, rfl⟩ | ⟨head, init, last, rfl⟩
  · simp [breaks, breaksFrom, flat]
  · by_cases hl : last.text = ""
    · simp [startLine_concat_of_empty _ _ hl, hl]
    · rw [startLine_concat_of_ne _ _ hl, breaks_concat, List.mem_append, List.mem_singleton]

/-- A text moves no break. -/
theorem breaks_append (lines : Lines) (s : String) : (lines.append s).breaks = lines.breaks := by
  rcases lines.eq_nil_or_concat with ⟨head, rfl⟩ | ⟨head, init, last, rfl⟩
  · rfl
  · simp

/-! ## Many strokes -/

/-- The flat text is what the strokes say. -/
theorem flat_foldl (strokes : List Stroke) (lines : Lines) :
    (strokes.foldl apply lines).flat = lines.flat ++ Stroke.contents strokes := by
  induction strokes generalizing lines with
  | nil => simp
  | cons stroke strokes ih =>
    rw [List.foldl_cons, ih, flat_apply, Stroke.contents_cons, String.append_assoc]

/-- The flat text of lines is what their strokes ask for. -/
theorem flat_ofStrokes (strokes : List Stroke) :
    (ofStrokes strokes).flat = Stroke.contents strokes := by
  rw [ofStrokes, flat_foldl]
  exact String.empty_append

/-- No two breaks fall on the same point. -/
theorem tight_ofStrokes (strokes : List Stroke) : (ofStrokes strokes).Tight := by
  have h : ∀ lines : Lines, lines.Tight → (strokes.foldl apply lines).Tight := by
    induction strokes with
    | nil => exact fun _ hl => hl
    | cons stroke strokes ih => exact fun lines hl => ih _ (tight_apply hl stroke)
  exact h {} (by simp [Tight])

theorem mem_breaks_foldl (p : Nat) (strokes : List Stroke) (lines : Lines) :
    p ∈ (strokes.foldl apply lines).breaks ↔
      p ∈ lines.breaks ∨ p ∈ Stroke.requestsFrom lines.flat.length strokes := by
  induction strokes generalizing lines with
  | nil => simp [Stroke.requestsFrom]
  | cons stroke strokes ih =>
    rw [List.foldl_cons, ih, flat_apply]
    cases stroke with
    | text s => simp [apply, breaks_append, Stroke.requestsFrom, Stroke.content]
    | newline level =>
      simp [apply, mem_breaks_startLine, Stroke.requestsFrom, Stroke.content, or_assoc]

/-- Breaks fall where new lines are asked for. -/
theorem mem_breaks_ofStrokes (p : Nat) (strokes : List Stroke) :
    p ∈ (ofStrokes strokes).breaks ↔ p ∈ Stroke.requestsFrom 0 strokes := by
  rw [ofStrokes, mem_breaks_foldl]
  simp [breaks, breaksFrom, flat]

theorem le_of_mem_breaksFrom {offset p : Nat} {rest : List Line} (h : p ∈ breaksFrom offset rest) :
    offset ≤ p := by
  induction rest generalizing offset with
  | nil => cases h
  | cons line rest ih =>
    rcases List.mem_cons.1 h with rfl | h
    · exact Nat.le_refl _
    · exact Nat.le_trans (Nat.le_add_right _ _) (ih h)

/-- Lines with text on them break at different points. -/
theorem pairwise_breaksFrom (offset : Nat) {rest : List Line}
    (h : ∀ line ∈ rest.dropLast, line.text ≠ "") : (breaksFrom offset rest).Pairwise (· < ·) := by
  induction rest generalizing offset with
  | nil => exact .nil
  | cons line rest ih =>
    cases rest with
    | nil => exact List.pairwise_singleton _ _
    | cons next rest =>
      rw [List.dropLast_cons_cons] at h
      have hline : 0 < line.text.length := by
        simpa [Nat.pos_iff_ne_zero] using h line (by simp)
      refine .cons (fun p hp => ?_) (ih _ fun l hl => h l (by simp [hl]))
      exact Nat.lt_of_lt_of_le (Nat.lt_add_of_pos_right hline) (le_of_mem_breaksFrom hp)

/-- The breaks of tight lines fall one after the other. -/
theorem Tight.pairwise_breaks {lines : Lines} (h : lines.Tight) :
    lines.breaks.Pairwise (· < ·) :=
  pairwise_breaksFrom _ h

end Lines

/-! ## Pages -/

namespace Page

/-- What is on a page is what the lines say for its width and terminator. -/
structure Shows (page : Page) (lines : Lines) : Prop where
  /-- Padding is owed to the last line as long as it has no text. -/
  owed : page.owed =
    if lines.fresh then lines.rest.getLast?.map fun last => last.level * page.width else none
  build : page.build = lines.build page.width page.terminator

theorem shows_nil (width : Int) (terminator : String) : Shows { width, terminator } {} :=
  ⟨rfl, rfl⟩

theorem Shows.fresh {page : Page} {lines : Lines} (h : page.Shows lines) :
    page.fresh = lines.fresh := by
  rw [Page.fresh, h.owed]
  rcases lines.eq_nil_or_concat with ⟨head, rfl⟩ | ⟨head, init, last, rfl⟩
  · simp
  · cases hl : last.text.isEmpty <;> simp [hl]

@[simp] theorem spaces_zero : spaces 0 = "" :=
  rfl

@[simp] theorem length_spaces (n : Int) : (spaces n).length = n.toNat := by
  simp [spaces]

/-- The padding owed is part of the text of the page already. -/
theorem settle_eq (page : Page) : ∃ parts, page.settle = { page with parts, owed := none } ∧
    String.join parts.toList = page.build := by
  unfold settle build
  split <;> rename_i h
  · exact ⟨page.parts, by rw [← h], by simp [h]⟩
  · exact ⟨page.parts, rfl, by simp [h]⟩
  · exact ⟨page.parts.push _, rfl, by simp [h]⟩

theorem shows_append {page : Page} {lines : Lines} (h : page.Shows lines) (s : String) :
    (page.append s).Shows (lines.append s) := by
  by_cases hs : s = ""
  · simpa [hs, append] using h
  obtain ⟨parts, hp, hj⟩ := page.settle_eq
  have hpage : page.append s = { page with parts := parts.push s, owed := none } := by
    simp [append, hs, hp]
  rw [hpage]
  refine ⟨?_, ?_⟩
  · -- The last line has a text now.
    rcases lines.eq_nil_or_concat with ⟨head, rfl⟩ | ⟨head, init, last, rfl⟩ <;> simp [hs]
  · rw [Lines.build_append, ← h.build, ← hj]
    simp [build]

/-- A line on which nothing stands gives way to the new one. -/
theorem build_startLine (page : Page) (level : Nat) :
    (page.startLine level).build = String.join page.parts.toList ++
      (if page.fresh then "" else page.terminator) ++ spaces (level * page.width) := by
  unfold build startLine
  split <;> simp

theorem shows_startLine {page : Page} {lines : Lines} (h : page.Shows lines) (level : Nat) :
    (page.startLine level).Shows (lines.startLine level) := by
  refine ⟨by simp [startLine, Lines.startLine, Lines.fresh], ?_⟩
  show (page.startLine level).build = (lines.startLine level).build page.width page.terminator
  have hb := h.build
  rw [build_startLine, h.fresh]
  cases hf : lines.fresh with
  | false =>
    have howed : page.owed = none := by rw [h.owed, hf]; rfl
    simp only [build, howed, Option.getD_none, spaces_zero, String.append_empty] at hb
    simp [Lines.startLine, hf, hb, String.append_assoc]
  | true =>
    -- The terminator is there already, and the padding that was owed is not.
    rcases lines.eq_nil_or_concat with ⟨head, rfl⟩ | ⟨head, init, last, rfl⟩
    · simp at hf
    have hl : last.text = "" := by simpa using hf
    have howed : page.owed = some (last.level * page.width) := by
      rw [h.owed, hf, if_pos rfl, List.getLast?_concat, Option.map_some]
    rw [build, howed, Option.getD_some, Lines.build_concat, hl, String.append_empty,
      ← String.append_assoc, String.append_left_inj] at hb
    rw [hb, Lines.startLine_concat_of_empty _ _ hl, Lines.build_concat]
    simp [String.append_assoc]

/-- Page and lines take the same stroke. -/
theorem shows_apply {page : Page} {lines : Lines} (h : page.Shows lines) :
    ∀ stroke : Stroke, (page.apply stroke).Shows (lines.apply stroke)
  | .text s => shows_append h s
  | .newline level => shows_startLine h level

theorem shows_applyAll {page : Page} {lines : Lines} (h : page.Shows lines)
    (strokes : List Stroke) : (page.applyAll strokes).Shows (strokes.foldl Lines.apply lines) := by
  induction strokes generalizing page lines with
  | nil => exact h
  | cons stroke strokes ih => exact ih (shows_apply h stroke)

/-- Strokes change neither the width nor the terminator of a page. -/
theorem frame_apply (page : Page) (stroke : Stroke) :
    (page.apply stroke).width = page.width ∧ (page.apply stroke).terminator = page.terminator := by
  cases stroke with
  | text s =>
    obtain ⟨parts, hp, -⟩ := page.settle_eq
    by_cases hs : s.isEmpty <;> simp [apply, append, hs, hp]
  | newline level => exact ⟨rfl, rfl⟩

/-- Strokes leave the width and the terminator of a page. -/
theorem frame_applyAll (page : Page) (strokes : List Stroke) :
    (page.applyAll strokes).width = page.width ∧
      (page.applyAll strokes).terminator = page.terminator := by
  induction strokes generalizing page with
  | nil => exact ⟨rfl, rfl⟩
  | cons stroke strokes ih =>
    obtain ⟨hw, ht⟩ := ih (page.apply stroke)
    obtain ⟨hw', ht'⟩ := page.frame_apply stroke
    exact ⟨hw.trans hw', ht.trans ht'⟩

/-- Strokes on an empty page give the text of their lines. -/
theorem build_applyAll (width : Int) (terminator : String) (strokes : List Stroke) :
    (applyAll { width, terminator } strokes).build =
      (Lines.ofStrokes strokes).build width terminator := by
  obtain ⟨hw, ht⟩ := frame_applyAll { width, terminator } strokes
  have h := (shows_applyAll (shows_nil width terminator) strokes).build
  rwa [hw, ht] at h

end Page

end TokenLayout
