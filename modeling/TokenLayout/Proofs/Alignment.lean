import TokenLayout.Proofs.PageHistory
import TokenLayout.Proofs.Strokes

/-!
# Brackets are aligned

A bracket round a body that takes several lines closes on a line of its own. If its opening text
starts a line, the closing text starts one of the same level, and all the lines that are begun
between them are deeper than the bracket (`Store.write_bracket_aligned`). That holds whatever is on
the page before, and whatever the body leaves behind: a break that is still without a text when the
bracket closes is taken over by the closing text.

* `Token.le_of_newline_mem` : a tree asks for no line above its own level;
* `Page.build_applyAll_of_not_fresh` : on a page that is not on a fresh line, strokes put their
  lines after what is there.
-/

namespace TokenLayout

/-! ## Lines -/

namespace Lines

/-- The lines without a last one that has no text. -/
def trimmed (lines : Lines) : Lines :=
  { lines with rest := if lines.fresh then lines.rest.dropLast else lines.rest }

theorem flat_trimmed (lines : Lines) : lines.trimmed.flat = lines.flat := by
  rcases lines.eq_nil_or_concat with ⟨head, rfl⟩ | ⟨head, init, last, rfl⟩
  · rfl
  · by_cases hl : last.text = ""
    · simp [trimmed, hl]
    · simp [trimmed, hl]

/-- No line is left without a text. -/
theorem Tight.text_ne_of_mem_trimmed {lines : Lines} (h : lines.Tight) {line : Line}
    (hline : line ∈ lines.trimmed.rest) : line.text ≠ "" := by
  rcases lines.eq_nil_or_concat with ⟨head, rfl⟩ | ⟨head, init, last, rfl⟩
  · simp [trimmed] at hline
  · have hinit : ∀ line ∈ init, line.text ≠ "" := by simpa [Tight] using h
    by_cases hl : last.text = ""
    · exact hinit line (by simpa [trimmed, hl] using hline)
    · have hmem : line ∈ init ∨ line = last := by simpa [trimmed, hl] using hline
      rcases hmem with hmem | rfl
      · exact hinit line hmem
      · exact hl

theorem ofStrokes_append (strokes strokes' : List Stroke) :
    ofStrokes (strokes ++ strokes') = strokes'.foldl apply (ofStrokes strokes) := by
  simp [ofStrokes]

/-- A break takes the place of one that is still without a text. -/
theorem ofStrokes_concat_line (strokes : List Stroke) (level : Nat) (s : String) :
    ofStrokes (strokes ++ [.newline level, .text s]) =
      { (ofStrokes strokes).trimmed with
        rest := (ofStrokes strokes).trimmed.rest ++ [⟨level, s⟩] } := by
  rw [ofStrokes_append]
  simp [apply, startLine, trimmed]

/-- The levels of the lines are among those that a stroke starts a line at. -/
theorem forall_level_apply {P : Nat → Prop} {lines : Lines} (h : ∀ line ∈ lines.rest, P line.level)
    {stroke : Stroke} (hstroke : ∀ level, stroke = .newline level → P level) :
    ∀ line ∈ (lines.apply stroke).rest, P line.level := by
  rcases lines.eq_nil_or_concat with ⟨head, rfl⟩ | ⟨head, init, last, rfl⟩
  · cases stroke with
    | text s => simp [apply]
    | newline level => simpa [apply] using hstroke level rfl
  · have hinit : ∀ line ∈ init, P line.level := fun line hline => h line (by simp [hline])
    have hlast : P last.level := h last (by simp)
    cases stroke with
    | text s =>
      intro line hline
      have hmem : line ∈ init ∨ line = { last with text := last.text ++ s } := by
        simpa [apply] using hline
      rcases hmem with hmem | rfl
      · exact hinit line hmem
      · exact hlast
    | newline level =>
      have hlevel : P level := hstroke level rfl
      intro line hline
      by_cases hl : last.text = ""
      · rw [apply, startLine_concat_of_empty _ _ hl, List.mem_append, List.mem_singleton] at hline
        rcases hline with hmem | rfl
        · exact hinit line hmem
        · exact hlevel
      · rw [apply, startLine_concat_of_ne _ _ hl, List.mem_append, List.mem_singleton] at hline
        rcases hline with hmem | rfl
        · exact h line hmem
        · exact hlevel

theorem forall_level_ofStrokes {P : Nat → Prop} {strokes : List Stroke}
    (h : ∀ level, .newline level ∈ strokes → P level) :
    ∀ line ∈ (ofStrokes strokes).rest, P line.level := by
  have hfold : ∀ lines : Lines, (∀ line ∈ lines.rest, P line.level) →
      ∀ line ∈ (strokes.foldl apply lines).rest, P line.level := by
    induction strokes with
    | nil => exact fun _ hlines => hlines
    | cons stroke strokes ih =>
      intro lines hlines
      refine ih (fun level hlevel => h level (by simp [hlevel])) _ ?_
      exact forall_level_apply hlines fun level hlevel => h level (by simp [hlevel])
  exact hfold {} (by simp)

theorem forall_level_trimmed {P : Nat → Prop} {lines : Lines}
    (h : ∀ line ∈ lines.rest, P line.level) : ∀ line ∈ lines.trimmed.rest, P line.level := by
  intro line hline
  unfold trimmed at hline
  split at hline
  · exact h line (List.mem_of_mem_dropLast hline)
  · exact h line hline

theorem append_build (s : String) (lines : Lines) (width : Int) (terminator : String) :
    s ++ lines.build width terminator =
      ({ lines with head := s ++ lines.head } : Lines).build width terminator := by
  simp [build, String.append_assoc]

end Lines

/-! ## Pages with something on them -/

namespace Page

/-- The page with some parts put before its own. -/
def prepend (base : Array String) (page : Page) : Page :=
  { page with parts := base ++ page.parts }

theorem settle_prepend (base : Array String) (page : Page) :
    (page.prepend base).settle = page.settle.prepend base := by
  obtain ⟨width, terminator, parts, owed⟩ := page
  simp only [settle, prepend]
  split <;> simp

/-- What is on a page already has no part in what a stroke does. -/
theorem apply_prepend (base : Array String) (page : Page) (stroke : Stroke) :
    (page.prepend base).apply stroke = (page.apply stroke).prepend base := by
  cases stroke with
  | text s =>
    by_cases hs : s.isEmpty
    · simp [apply, append, hs]
    · simp only [apply, append, if_neg hs, settle_prepend]
      simp [prepend]
  | newline level =>
    have hfresh : (page.prepend base).fresh = page.fresh := rfl
    simp only [apply, startLine, hfresh]
    cases page.fresh <;> simp [prepend]

theorem applyAll_prepend (base : Array String) (page : Page) (strokes : List Stroke) :
    (page.prepend base).applyAll strokes = (page.applyAll strokes).prepend base := by
  induction strokes generalizing page with
  | nil => rfl
  | cons stroke strokes ih =>
    rw [applyAll, List.foldl_cons, apply_prepend]
    exact ih (page.apply stroke)

theorem build_prepend (base : Array String) (page : Page) :
    (page.prepend base).build = String.join base.toList ++ page.build := by
  simp [build, prepend, String.append_assoc]

/-- Nothing is owed to a page that is not on a fresh line. -/
theorem eq_prepend_of_not_fresh {page : Page} (h : page.fresh = false) :
    page = prepend page.parts { width := page.width, terminator := page.terminator } := by
  obtain ⟨width, terminator, parts, owed⟩ := page
  have howed : owed = none := by simpa [fresh] using h
  simp [prepend, howed]

/-- On a page that is not on a fresh line, strokes put their lines after what is there. -/
theorem build_applyAll_of_not_fresh {page : Page} (h : page.fresh = false)
    (strokes : List Stroke) : (page.applyAll strokes).build =
      page.build ++ (Lines.ofStrokes strokes).build page.width page.terminator := by
  have hbuild : page.build = String.join page.parts.toList := by
    have howed : page.owed = none := by simpa [fresh] using h
    simp [build, howed]
  conv_lhs => rw [eq_prepend_of_not_fresh h]
  rw [applyAll_prepend, build_prepend, build_applyAll, hbuild]

/-- After a text, strokes put their lines after it. -/
theorem build_applyAll_text (page : Page) (before : List Stroke) {s : String} (hs : s ≠ "")
    (strokes : List Stroke) : (page.applyAll (before ++ .text s :: strokes)).build =
      (page.applyAll before).build ++ s ++
        (Lines.ofStrokes strokes).build page.width page.terminator := by
  have hsplit : page.applyAll (before ++ .text s :: strokes) =
      ((page.applyAll before).append s).applyAll strokes := by
    simp [applyAll, apply]
  have hfresh : ((page.applyAll before).append s).fresh = false :=
    (fresh_apply _ (.text s)).trans (by simp [Stroke.freshAfter, hs])
  have hframe := page.frame_applyAll before
  have hframe' := (page.applyAll before).frame_apply (.text s)
  rw [hsplit, build_applyAll_of_not_fresh hfresh, build_append]
  rw [show ((page.applyAll before).append s).width = page.width from hframe'.1.trans hframe.1,
    show ((page.applyAll before).append s).terminator = page.terminator from
      hframe'.2.trans hframe.2]

/-- The text of a page up to what comes next: at the start of a line of some level, or right after
what is there. -/
def textUpTo (page : Page) : Option Nat → String
  | some level => String.join page.parts.toList ++ (if page.fresh then "" else page.terminator) ++
      spaces (level * page.width)
  | none => page.build

theorem build_applyAll_newline? (page : Page) (level? : Option Nat) :
    (page.applyAll (level?.toList.map .newline)).build = page.textUpTo level? := by
  cases level? with
  | none => rfl
  | some level => exact page.build_startLine level

end Page

/-! ## The lines of a bracket -/

namespace Frame

/-- The level of the line that the opening text starts, for a bracket at `level` round a broken
body. It starts a line if the bracket is on a line of its own, or if the page is on a fresh line,
which is set deeper then. -/
def openingLevel? (frame : Frame) (fresh : Bool) (level : Nat) : Option Nat :=
  if frame.ownLine then some level else if fresh then some (level + 1) else none

/-- The level of the line that the closing text starts, for a bracket at `level` round a broken
body. -/
def closingLevel (frame : Frame) (level : Nat) : Nat :=
  if frame.ownLine then level else level + 1

variable (frame : Frame) (fresh : Bool) (level : Nat)

theorem closingLevel_eq_of_openingLevel? {frame : Frame} {fresh : Bool} {level start : Nat}
    (h : frame.openingLevel? fresh level = some start) : frame.closingLevel level = start := by
  cases hown : frame.ownLine with
  | true => simpa [openingLevel?, closingLevel, hown] using h
  | false =>
    have hfresh : fresh = true ∧ level + 1 = start := by simpa [openingLevel?, hown] using h
    simpa [closingLevel, hown] using hfresh.2

theorem before_of_broken : frame.before false fresh level (level + 1) =
    (frame.openingLevel? fresh level).toList.map .newline ++ .text frame.opening ::
      if frame.ownLine then [.newline (level + 1)] else [] := by
  unfold before openingLevel?
  cases frame.ownLine <;> cases fresh <;> rfl

theorem after_of_broken : frame.after false true level (level + 1) =
    [.newline (frame.closingLevel level), .text frame.closing] := by
  unfold after closingLevel
  cases frame.ownLine <;> rfl

theorem le_of_newline_mem_before {frame : Frame} {bare fresh : Bool} {level inner l : Nat}
    (hinner : level ≤ inner) (h : .newline l ∈ frame.before bare fresh level inner) :
    level ≤ l := by
  unfold before at h
  split at h
  · have hmem : l = level ∨ l = inner := by simpa using h
    omega
  · have hmem : l = inner := by
      cases bare <;> cases fresh <;> simp_all
    omega

theorem le_of_newline_mem_after {frame : Frame} {bare broken : Bool} {level inner l : Nat}
    (hinner : level ≤ inner) (h : .newline l ∈ frame.after bare broken level inner) :
    level ≤ l := by
  have hmem : l = if frame.ownLine || bare then level else inner := by
    unfold after at h
    cases bare <;> cases broken <;> simp_all
  rw [hmem]
  split <;> omega

end Frame

namespace Token

theorem le_of_newline_mem_lead {commas split first : Bool} {part : Token} {level l : Nat}
    (h : .newline l ∈ lead commas split first part level) : level ≤ l := by
  unfold lead at h
  cases commas && !first <;> cases split && part.tag.breakable <;> simp at h <;> omega

mutual

/-- A tree asks for no line above its own level. -/
theorem le_of_newline_mem (broken : Token → Bool) : ∀ (t : Token) {level : Nat} {fresh : Bool}
    {l : Nat}, .newline l ∈ t.strokes broken level fresh → level ≤ l
  | leaf .., _, _, _, h => by simp [strokes] at h
  | group _ commas _ parts, level, fresh, _, h => by
    rw [strokes] at h
    exact le_of_newline_mem_parts broken commas _ true parts h
  | bracket _ frame body, level, fresh, l, h => by
    rw [strokes] at h
    have hinner : level ≤ if broken body then level + 1 else level := by split <;> omega
    rcases List.mem_append.1 h with h | h
    · rcases List.mem_append.1 h with h | h
      · exact Frame.le_of_newline_mem_before hinner h
      · have hbody := le_of_newline_mem broken body h
        omega
    · exact Frame.le_of_newline_mem_after hinner h
  | blank _, _, _, _, h => by simp [strokes] at h
  | foreign .., _, _, _, h => by simp [strokes] at h

theorem le_of_newline_mem_parts (broken : Token → Bool) (commas split : Bool) :
    ∀ (first : Bool) (parts : List Token) {level : Nat} {fresh : Bool} {l : Nat},
      .newline l ∈ partStrokes broken commas split first parts level fresh → level ≤ l
  | _, [], _, _, _, h => by simp [partStrokes] at h
  | first, part :: parts, level, fresh, l, h => by
    rw [partStrokes] at h
    rcases List.mem_append.1 h with h | h
    · rcases List.mem_append.1 h with h | h
      · exact le_of_newline_mem_lead h
      · have hpart := le_of_newline_mem broken part h
        omega
    · exact le_of_newline_mem_parts broken commas split false parts h

end

/-- The strokes of a bracket round a broken body: the opening text, deeper lines, and the closing
text on a line of its own. -/
theorem exists_strokes_bracket (broken : Token → Bool) (tag : Tag) {frame : Frame} {body : Token}
    (hbare : frame.bare body = false) (hbroken : broken body = true) (level : Nat)
    (fresh : Bool) : ∃ inner : List Stroke,
      (bracket tag frame body).strokes broken level fresh =
        (frame.openingLevel? fresh level).toList.map .newline ++
          .text frame.opening ::
            (inner ++ [.newline (frame.closingLevel level), .text frame.closing]) ∧
      Stroke.contents inner = body.flat ∧ ∀ l, .newline l ∈ inner → level + 1 ≤ l := by
  refine ⟨(if frame.ownLine then [.newline (level + 1)] else []) ++
    body.strokes broken (level + 1 + body.tag.inset)
      (Stroke.freshAfterAll fresh (frame.before false fresh level (level + 1))), ?_, ?_, ?_⟩
  · rw [strokes, hbare, hbroken, if_pos rfl, frame.after_of_broken, frame.before_of_broken]
    simp only [List.append_assoc, List.cons_append]
  · rw [Stroke.contents_append, contents_strokes]
    cases frame.ownLine <;> simp [Stroke.content]
  · intro l hl
    rcases List.mem_append.1 hl with hl | hl
    · have heq : l = level + 1 := by
        cases hown : frame.ownLine <;> simp [hown] at hl
        exact hl
      omega
    · have hbody := le_of_newline_mem broken body hl
      omega

end Token

/-- A bracket with a broken body, at some level of any page. The closing text is alone on a line at
the level of the bracket if the bracket is on a line of its own, and one level deeper otherwise. The
opening text starts a line of that same level, or goes on with the current line. The lines between
them are deeper than the bracket, and hold the flat text of the body. -/
theorem Store.write_bracket_aligned {store : Store} {id : TokenId} {tag : Tag} {frame : Frame}
    {body : Token} (ht : store.tree? id = some (.bracket tag frame body)) (h : body.Writable)
    (hopening : frame.opening ≠ "") (hclosing : frame.closing ≠ "")
    (hbare : frame.bare body = false) {limits : Thresholds}
    (hbroken : body.broken limits store.memo = true) (level : Nat) (page : Page) :
    let opening :=
      if frame.ownLine then some level else if page.fresh then some (level + 1) else none
    let closing := if frame.ownLine then level else level + 1
    (∀ start, opening = some start → closing = start) ∧
    (store.write limits id level page).1 = .ok () ∧
    (store.write limits id level page).2.1.fresh = false ∧
    ∃ inside : Lines, inside.flat = body.flat ∧
      (∀ line ∈ inside.rest, level + 1 ≤ line.level ∧ line.text ≠ "") ∧
      (store.write limits id level page).2.1.build = page.textUpTo opening ++
        ({ head := frame.opening ++ inside.head
           rest := inside.rest ++ [⟨closing, frame.closing⟩] } : Lines).build
          page.width page.terminator := by
  have hw : (Token.bracket tag frame body).Writable :=
    Token.every_iff.2 ⟨rfl, List.forall_mem_singleton.2 h⟩
  obtain ⟨hok, hpage⟩ := write_of_writable ht hw limits level page
  obtain ⟨inner, hstrokes, hflat, hlevels⟩ :=
    Token.exists_strokes_bracket (Token.broken limits store.memo) tag hbare hbroken level page.fresh
  rw [hstrokes] at hpage
  have hclosed : (Lines.ofStrokes
      (inner ++ [.newline (frame.closingLevel level), .text frame.closing])) = _ :=
    Lines.ofStrokes_concat_line _ _ _
  refine ⟨fun start hstart => Frame.closingLevel_eq_of_openingLevel? hstart, hok, ?_,
    (Lines.ofStrokes inner).trimmed, ?_, fun line hline => ⟨?_, ?_⟩, ?_⟩
  · rw [hpage, Page.fresh_applyAll]
    simp [Stroke.freshAfterAll, Stroke.freshAfter, hclosing]
  · rw [Lines.flat_trimmed, Lines.flat_ofStrokes, hflat]
  · exact Lines.forall_level_trimmed (Lines.forall_level_ofStrokes hlevels) line hline
  · exact (Lines.tight_ofStrokes inner).text_ne_of_mem_trimmed hline
  · rw [hpage, Page.build_applyAll_text _ _ hopening, Page.build_applyAll_newline?, hclosed,
      String.append_assoc, Lines.append_build]
    rfl

/-- A list in brackets comes to a line that is set deeper for it. Its body ends with a bare bracket,
which leaves a break behind for the closing text. -/
theorem Store.write_bracket_aligned_fresh :
    let store : Store := { entries := #[⟨{ breakable := true }, .leaf .word "a"⟩,
      ⟨{}, .leaf .word "b"⟩, ⟨{}, .group false (some true) [1]⟩,
      ⟨{ breakable := true, inset := 1 },
        .bracket { opening := "(", closing := ")", bareSingle := true } 2⟩,
      ⟨{}, .group true none [0, 3]⟩, ⟨{}, .bracket { opening := "[", closing := "]" } 4⟩] }
    let page : Page := { parts := #["x", "\r\n"], owed := some 7 }
    (store.write {} 5 (1 : Nat) page).2.1.build =
        "x\r\n      [\r\n      a, \r\n            b\r\n      ]" ∧
      ∃ inside : Lines, inside.flat = "a, b" ∧
        (∀ line ∈ inside.rest, 2 ≤ line.level ∧ line.text ≠ "") ∧
        (store.write {} 5 (1 : Nat) page).2.1.build = page.textUpTo (some 2) ++
          ({ head := "[" ++ inside.head, rest := inside.rest ++ [⟨2, "]"⟩] } : Lines).build
            3 "\r\n" := by
  intro store page
  obtain ⟨tag, frame, body, ht, hframe, hw, hflat, hbroken⟩ : ∃ tag frame body,
      store.tree? 5 = some (.bracket tag frame body) ∧
        frame = { opening := "[", closing := "]" } ∧ body.Writable ∧ body.flat = "a, b" ∧
        body.broken {} store.memo = true :=
    ⟨_, _, _, rfl, rfl, by decide, by decide, by decide +kernel⟩
  subst hframe
  have haligned := write_bracket_aligned ht hw (by decide) (by decide) rfl hbroken 1 page
  obtain ⟨-, -, -, inside, hinside, hlevels, hbuild⟩ := haligned
  exact ⟨by decide +kernel, inside, hinside.trans hflat, hlevels, hbuild⟩

end TokenLayout
