import TokenLayout.Proofs.Alignment

/-!
# Writing deeper

A token that is written some levels deeper asks for the same texts and the same new lines, each of
them that much deeper (`Token.deepens_write`). That is a relation between two runs from the same
start, and every way to put layouts together keeps it (`Layout.Deepens.bind`). Since a token at some
level is one at level zero that is written deeper, it asks for no line above its level.

On a page this can be seen in the text (`Page.write_deeper`). What is written goes on with the
current line, or starts with a line of some level, which takes the place of a line that is still
without a text (`Stroke.start?`). From there on it has lines of its own, and only their padding
depends on the level.
-/

namespace TokenLayout

/-! ## Deeper strokes -/

namespace Stroke

/-- The stroke with the line that it starts, if any, set `depth` levels deeper. -/
def deepen (depth : Nat) : Stroke → Stroke
  | text s => text s
  | newline level => newline (level + depth)

/-- The level of the line that strokes start before they put a text anywhere. -/
def start? : List Stroke → Option Nat
  | [] => none
  | text s :: strokes => if s.isEmpty then start? strokes else none
  | newline level :: strokes => some ((start? strokes).getD level)

/-- The strokes from the first text on. -/
def fromText (strokes : List Stroke) : List Stroke :=
  strokes.dropWhile fun stroke => stroke.content.isEmpty

variable (depth : Nat)

@[simp] theorem content_deepen (stroke : Stroke) :
    (stroke.deepen depth).content = stroke.content := by
  cases stroke <;> rfl

theorem freshAfterAll_deepen (fresh : Bool) (strokes : List Stroke) :
    freshAfterAll fresh (strokes.map (deepen depth)) = freshAfterAll fresh strokes := by
  rw [freshAfterAll, List.foldl_map]
  congr 1
  funext fresh stroke
  cases stroke <;> rfl

theorem start?_deepen (strokes : List Stroke) :
    start? (strokes.map (deepen depth)) = (start? strokes).map (· + depth) := by
  induction strokes with
  | nil => rfl
  | cons stroke strokes ih =>
    cases stroke with
    | text s =>
      rw [List.map_cons, deepen, start?, start?, ih]
      split <;> rfl
    | newline level =>
      rw [List.map_cons, deepen, start?, start?, ih]
      cases start? strokes <;> rfl

theorem fromText_deepen (strokes : List Stroke) :
    fromText (strokes.map (deepen depth)) = (fromText strokes).map (deepen depth) := by
  rw [fromText, List.dropWhile_map, fromText]
  congr 2
  funext stroke
  simp

/-- No text is lost with the breaks at the start. -/
theorem contents_fromText (strokes : List Stroke) :
    contents (fromText strokes) = contents strokes := by
  induction strokes with
  | nil => rfl
  | cons stroke strokes ih =>
    by_cases h : stroke.content = ""
    · have hdrop : fromText (stroke :: strokes) = fromText strokes := by simp [fromText, h]
      rw [hdrop, ih, contents_cons, h, String.empty_append]
    · rw [fromText, List.dropWhile_cons_of_neg (by simpa using h)]

end Stroke

/-- The draft with its lines set `depth` levels deeper. -/
def Draft.deepen {α : Type} (depth : Nat) (draft : Draft α) : Draft α :=
  { draft with strokes := draft.strokes.map (Stroke.deepen depth) }

/-! ## Two runs -/

namespace Layout

variable {α β : Type} {depth : Nat}

/-- From the same start both layouts do the same, but that the second one sets its lines `depth`
levels deeper. -/
def Deepens (depth : Nat) (x y : Layout α) : Prop :=
  ∀ fresh memo, y.run fresh memo = (x.run fresh memo).deepen depth

/-- Layouts that are set deeper step by step are set deeper as a whole. -/
theorem Deepens.bind {x y : Layout α} {f g : α → Layout β} (hx : Deepens depth x y)
    (hf : ∀ a, Deepens depth (f a) (g a)) : Deepens depth (x >>= f) (y >>= g) := by
  intro fresh memo
  rw [run_bind, run_bind, hx fresh memo]
  rcases x.run fresh memo with ⟨strokes, memo', result⟩
  cases result with
  | error fault => rfl
  | ok a =>
    -- The page is on a fresh line after both or after neither.
    simp only [Draft.deepen, Stroke.freshAfterAll_deepen, hf a _ _, List.map_append]

theorem Deepens.when {x y : Layout Unit} (h : Deepens depth x y) (condition : Bool) :
    Deepens depth (when condition x) (when condition y) := by
  cases condition
  · exact fun _ _ => rfl
  · exact h

theorem deepens_pure (a : α) : Deepens depth (pure a) (pure a) :=
  fun _ _ => rfl

theorem deepens_fail (fault : Fault) : Deepens depth (fail fault : Layout α) (fail fault) :=
  fun _ _ => rfl

theorem deepens_onFreshLine : Deepens depth onFreshLine onFreshLine :=
  fun _ _ => rfl

theorem deepens_text (s : String) : Deepens depth (text s) (text s) :=
  fun _ _ => rfl

theorem deepens_reading (x : Reading α) : Deepens depth (reading x) (reading x) := by
  intro fresh memo
  simp only [reading]
  split <;> rfl

theorem deepens_newline {level deeper : Int} (h : 0 ≤ level) (hdeeper : deeper = level + depth) :
    Deepens depth (newline level) (newline deeper) := by
  obtain ⟨n, rfl⟩ := Int.eq_ofNat_of_zero_le h
  obtain rfl : deeper = ((n + depth : Nat) : Int) := hdeeper
  intro fresh memo
  rw [run_newline, run_newline]
  rfl

end Layout

namespace Token

open Layout

variable {limits : Thresholds} {depth : Nat}

mutual

/-- A token that is written deeper asks for the same strokes, with its lines that much deeper. -/
theorem deepens_write : ∀ (t : Token) {level deeper : Int}, 0 ≤ level → deeper = level + depth →
    Deepens depth (t.write limits level) (t.write limits deeper)
  | leaf _ _ text, _, _, _, _ => by
    rw [write, write]
    exact deepens_text text
  | group tag commas forced parts, level, deeper, hl, hd => by
    rw [write, write]
    exact (deepens_reading _).bind fun broken =>
      deepens_writeParts commas broken true parts hl hd
  | bracket _ frame body, level, deeper, hl, hd => by
    have hnonneg (broken : Bool) : 0 ≤ if broken then level + 1 else level := by
      split <;> omega
    have hinner (broken : Bool) : (if broken then deeper + 1 else deeper) =
        (if broken then level + 1 else level) + depth := by
      split <;> omega
    have hbody (broken : Bool) : Deepens depth
        (body.write limits ((if broken then level + 1 else level) + body.tag.inset))
        (body.write limits ((if broken then deeper + 1 else deeper) + body.tag.inset)) :=
      deepens_write body (Int.add_nonneg (hnonneg broken) (Int.natCast_nonneg _))
        (by rw [hinner]; omega)
    rw [write, write]
    split
    · refine (deepens_newline hl hd).bind fun _ => (deepens_text _).bind fun _ => ?_
      refine (deepens_reading _).bind fun broken => ?_
      refine (deepens_newline (hnonneg broken) (hinner broken)).bind fun _ => ?_
      refine (hbody broken).bind fun _ => ?_
      exact ((deepens_newline hl hd).when broken).bind fun _ => deepens_text _
    · refine deepens_onFreshLine.bind fun fresh => (deepens_reading _).bind fun broken => ?_
      refine ((deepens_newline (hnonneg broken) (hinner broken)).when fresh).bind fun _ => ?_
      refine ((deepens_text _).when _).bind fun _ => (hbody broken).bind fun _ => ?_
      refine (Deepens.when ?_ broken).bind fun _ => (deepens_text _).when _
      split
      · exact deepens_newline hl hd
      · exact deepens_newline (hnonneg broken) (hinner broken)
  | blank _, _, _, _, _ => by
    rw [write, write]
    exact deepens_fail _
  | foreign .., _, _, _, _ => by
    rw [write, write]
    exact deepens_fail _

theorem deepens_writeParts (commas broken : Bool) : ∀ (first : Bool) (parts : List Token)
    {level deeper : Int}, 0 ≤ level → deeper = level + depth →
    Deepens depth (writeParts limits commas broken first parts level)
      (writeParts limits commas broken first parts deeper)
  | _, [], _, _, _, _ => by
    rw [writeParts, writeParts]
    exact deepens_pure ()
  | first, part :: parts, level, deeper, hl, hd => by
    have hnonneg : 0 ≤ level + part.tag.inset := Int.add_nonneg hl (Int.natCast_nonneg _)
    have hinner : deeper + part.tag.inset = level + part.tag.inset + depth := by omega
    rw [writeParts, writeParts]
    refine ((deepens_text _).when _).bind fun _ => ?_
    refine ((deepens_newline hnonneg hinner).when _).bind fun _ => ?_
    refine (deepens_write part hnonneg hinner).bind fun _ => ?_
    exact deepens_writeParts commas broken false parts hl hd

end

/-- A token at a deeper level has the same strokes, set deeper. -/
theorem run_write_add (limits : Thresholds) (t : Token) (level depth : Nat) (fresh : Bool)
    (memo : Memo) : (t.write limits (level + depth : Nat)).run fresh memo =
      ((t.write limits level).run fresh memo).deepen depth :=
  deepens_write t (Int.natCast_nonneg level) (Int.natCast_add level depth) fresh memo

/-- A token asks for no line above its own level, since it would ask for the same lines at level
zero. -/
theorem le_of_newline_mem_write {t : Token} {level l : Nat} {fresh : Bool} {memo : Memo}
    (h : .newline l ∈ ((t.write limits level).run fresh memo).strokes) : level ≤ l := by
  have hrun := run_write_add limits t 0 level fresh memo
  rw [Nat.zero_add] at hrun
  rw [hrun] at h
  obtain ⟨stroke, -, hstroke⟩ := List.mem_map.1 h
  cases stroke with
  | text s => cases hstroke
  | newline l' =>
    cases hstroke
    exact Nat.le_add_left level l'

end Token

/-! ## On a page -/

namespace Lines

/-- The lines set `depth` levels deeper, but for what stands before the first break. -/
def deepen (depth : Nat) (lines : Lines) : Lines :=
  { lines with rest := lines.rest.map fun line => { line with level := line.level + depth } }

theorem apply_deepen (depth : Nat) (lines : Lines) (stroke : Stroke) :
    (lines.deepen depth).apply (stroke.deepen depth) = (lines.apply stroke).deepen depth := by
  rcases lines.eq_nil_or_concat with ⟨head, rfl⟩ | ⟨head, init, last, rfl⟩
  · cases stroke <;> rfl
  · cases stroke with
    | text s => simp [deepen, Stroke.deepen, apply]
    | newline level =>
      by_cases hl : last.text = ""
      · simp [deepen, Stroke.deepen, apply, startLine, hl]
      · simp [deepen, Stroke.deepen, apply, startLine, hl]

/-- Strokes that are set deeper give lines that are set deeper. -/
theorem ofStrokes_deepen (depth : Nat) (strokes : List Stroke) :
    ofStrokes (strokes.map (Stroke.deepen depth)) = (ofStrokes strokes).deepen depth := by
  have hfold : ∀ lines : Lines, (strokes.map (Stroke.deepen depth)).foldl apply
      (lines.deepen depth) = (strokes.foldl apply lines).deepen depth := by
    induction strokes with
    | nil => exact fun _ => rfl
    | cons stroke strokes ih =>
      intro lines
      rw [List.map_cons, List.foldl_cons, List.foldl_cons, apply_deepen, ih]
  exact hfold {}

end Lines

namespace Page

theorem textUpTo_startLine (page : Page) (level : Nat) (start : Option Nat) :
    (page.startLine level).textUpTo start = page.textUpTo (some (start.getD level)) := by
  cases start with
  | none => exact page.build_startLine level
  | some next =>
    have hfresh : (page.startLine level).fresh = true := rfl
    have hjoin : String.join (page.startLine level).parts.toList =
        String.join page.parts.toList ++ if page.fresh then "" else page.terminator := by
      unfold startLine
      split <;> simp
    rw [textUpTo, textUpTo, hfresh, if_pos rfl, String.append_empty, hjoin]
    rfl

/-- Text at the start of a page stays at its start. -/
theorem build_ofStrokes_text {s : String} (hs : s ≠ "") (strokes : List Stroke) (width : Int)
    (terminator : String) : (Lines.ofStrokes (.text s :: strokes)).build width terminator =
      s ++ (Lines.ofStrokes strokes).build width terminator := by
  have htext := build_applyAll_text { width, terminator } [] hs strokes
  rw [List.nil_append, build_applyAll] at htext
  rw [htext]
  exact congrArg (· ++ _) String.empty_append

/-- Strokes on any page: what is there, up to where their first text goes, and the lines from there
on. -/
theorem build_applyAll_eq (page : Page) (strokes : List Stroke) :
    (page.applyAll strokes).build = page.textUpTo (Stroke.start? strokes) ++
      (Lines.ofStrokes (Stroke.fromText strokes)).build page.width page.terminator := by
  induction strokes generalizing page with
  | nil => exact String.append_empty.symm
  | cons stroke strokes ih =>
    cases stroke with
    | newline level =>
      have hstep : page.applyAll (.newline level :: strokes) =
          (page.startLine level).applyAll strokes := rfl
      rw [hstep, ih, textUpTo_startLine]
      rfl
    | text s =>
      by_cases hs : s = ""
      · have hstep : page.applyAll (.text s :: strokes) = page.applyAll strokes := by
          simp [applyAll, apply, append, hs]
        have hfrom : Stroke.fromText (.text s :: strokes) = Stroke.fromText strokes := by
          simp [Stroke.fromText, Stroke.content, hs]
        rw [hstep, ih, hfrom, Stroke.start?, if_pos (by simp [hs])]
      · have hfrom : Stroke.fromText (.text s :: strokes) = .text s :: strokes := by
          simp [Stroke.fromText, Stroke.content, hs]
        have htext := page.build_applyAll_text [] hs strokes
        rw [List.nil_append, String.append_assoc, ← build_ofStrokes_text hs] at htext
        rw [htext, hfrom, Stroke.start?, if_neg (by simp [hs])]
        rfl

end Page

/-- The padding of a deeper line has so many spaces more. -/
theorem Page.length_spaces_add_mul {width : Int} (h : 0 ≤ width) (level depth : Nat) :
    ((spaces ((level + depth : Nat) * width)).length : Int) =
      (spaces (level * width)).length + depth * width := by
  obtain ⟨n, rfl⟩ := Int.eq_ofNat_of_zero_le h
  simp only [length_spaces, ← Int.natCast_mul, Int.toNat_natCast, ← Int.natCast_add, Nat.add_mul]

/-- A tree that is written `depth` levels deeper on the same page. Both runs come to an end and
leave the same memo, and they ask for the same texts and new lines, each new line `depth` levels
deeper than before and none above the level of the tree. So the page gets the same texts with breaks
at the same places, and every line that the tree starts has the padding of `depth` more levels. -/
theorem Page.write_deeper {t : Token} (h : t.Writable) (limits : Thresholds) (memo : Memo)
    (page : Page) (level depth : Nat) :
    let plain := page.write limits t level memo
    let deeper := page.write limits t (level + depth : Nat) memo
    let start := Stroke.start? plain.2.strokes
    let lines := Lines.ofStrokes (Stroke.fromText plain.2.strokes)
    plain.2.result = .ok () ∧ deeper.2 = plain.2.deepen depth ∧
    (∀ l, .newline l ∈ plain.2.strokes → level ≤ l) ∧
    lines.Tight ∧ lines.flat = t.flat ∧
    plain.1.build = page.textUpTo start ++ lines.build page.width page.terminator ∧
    deeper.1.build = page.textUpTo (start.map (· + depth)) ++
      (lines.deepen depth).build page.width page.terminator ∧
    (0 ≤ page.width → ∀ l : Nat, ((spaces ((l + depth : Nat) * page.width)).length : Int) =
      (spaces (l * page.width)).length + depth * page.width) := by
  intro plain deeper start lines
  have hwrites : (t.write limits level).Writes t.flat :=
    t.writes_write level h (Int.natCast_nonneg level)
  obtain ⟨strokes, memo', _, hrun, hcontents⟩ := hwrites page.fresh memo
  have hstrokes : plain.2.strokes = strokes := congrArg Draft.strokes hrun
  have hdraft : deeper.2 = plain.2.deepen depth :=
    Token.run_write_add limits t level depth page.fresh memo
  refine ⟨congrArg Draft.result hrun, hdraft, fun l hl => Token.le_of_newline_mem_write hl,
    Lines.tight_ofStrokes _, ?_, page.build_applyAll_eq _, ?_,
    fun hw l => length_spaces_add_mul hw l depth⟩
  · rw [Lines.flat_ofStrokes, Stroke.contents_fromText, hstrokes, hcontents]
  · have hpage : deeper.1 = page.applyAll (plain.2.strokes.map (Stroke.deepen depth)) :=
      congrArg (fun draft : Draft Unit => page.applyAll draft.strokes) hdraft
    rw [hpage, page.build_applyAll_eq, Stroke.start?_deepen, Stroke.fromText_deepen,
      Lines.ofStrokes_deepen]

/-- A list with the same item twice, two levels deeper on a page that is on a fresh line. -/
theorem Page.write_deeper_list :
    let item : Token := .leaf { breakable := true, inset := 1, id := 0 } .word "a"
    let list : Token := .bracket { id := 2 } { opening := "[", closing := "]" }
      (.group { id := 1 } true none [item, item])
    let limits : Thresholds := { maxChildren := 1 }
    let page : Page := { parts := #["x", "\r\n"], owed := some 7 }
    let plain := page.write limits list (1 : Nat) {}
    let deeper := page.write limits list (1 + 2 : Nat) {}
    list.Writable ∧
      plain.1.build = "x\r\n      [\r\n         a, \r\n         a\r\n      ]" ∧
      deeper.1.build =
        "x\r\n            [\r\n               a, \r\n               a\r\n            ]" ∧
      deeper.2 = plain.2.deepen 2 := by
  intro item list limits page plain deeper
  have h : list.Writable := by decide
  exact ⟨h, by decide +kernel, by decide +kernel, (write_deeper h limits {} page 1 2).2.1⟩

end TokenLayout
