import Mathlib.Data.List.DropRight
import TokenLayout.PageScript
import TokenLayout.Proofs.Lines

/-!
# What a page shows of its history

A page pads its lines lazily, and is asked step by step. What it shows can be said at once, of all
the steps taken so far: those before the last clearing count for nothing, and neither do empty texts
and lines that were refused. Of the strokes that are left, each run of breaks comes to its last one
(`Stroke.collapse`), and the page is these strokes written one after the other (`Page.Records`).

* `Page.records_applyAll` : what strokes make of an empty page;
* `PageStep.pageAfter_eq` : steps come to the strokes of their history;
* `PageStep.explained_runAll` : what is seen of a page follows from the steps run on it.
-/

namespace TokenLayout

/-! ## Runs of breaks -/

namespace Stroke

/-- The stroke starts a line. -/
def isBreak : Stroke → Bool
  | text _ => false
  | newline _ => true

/-- Of each run of breaks the last one: a break is left out if another follows it. -/
def collapse : List Stroke → List Stroke
  | [] => []
  | stroke :: strokes =>
    if stroke.isBreak && strokes.head?.any isBreak then collapse strokes
    else stroke :: collapse strokes

/-- The padding that a stroke asks for. -/
def padding (width : Int) : Stroke → Int
  | text _ => 0
  | newline level => level * width

/-- A stroke written: a text as it is, a break as a terminator and its padding. -/
def written (width : Int) (terminator : String) : Stroke → String
  | text s => s
  | newline level => terminator ++ spaces (level * width)

theorem collapse_concat_text (strokes : List Stroke) (s : String) :
    collapse (strokes ++ [text s]) = collapse strokes ++ [text s] := by
  induction strokes with
  | nil => simp [collapse]
  | cons stroke strokes ih =>
    have hhead : (strokes ++ [text s]).head?.any isBreak = strokes.head?.any isBreak := by
      cases strokes <;> simp [isBreak]
    rw [List.cons_append, collapse, collapse, hhead, ih]
    split <;> rfl

/-- What comes before a break at the end does not depend on its level. -/
theorem exists_collapse_concat_newline (strokes : List Stroke) :
    ∃ before, ∀ level, collapse (strokes ++ [newline level]) = before ++ [newline level] := by
  induction strokes with
  | nil => exact ⟨[], fun level => by simp [collapse]⟩
  | cons stroke strokes ih =>
    obtain ⟨before, hbefore⟩ := ih
    have hhead : ∀ level, (strokes ++ [newline level]).head?.any isBreak =
        (strokes.isEmpty || strokes.head?.any isBreak) := by
      intro level
      cases strokes <;> simp [isBreak]
    by_cases hskip : (stroke.isBreak && (strokes.isEmpty || strokes.head?.any isBreak)) = true
    · exact ⟨before, fun level => by
        rw [List.cons_append, collapse, hhead, if_pos hskip, hbefore]⟩
    · exact ⟨stroke :: before, fun level => by
        rw [List.cons_append, collapse, hhead, if_neg hskip, hbefore, List.cons_append]⟩

/-- A break takes the place of the one right before it. -/
theorem collapse_concat_newline_newline (strokes : List Stroke) (level level' : Nat) :
    collapse (strokes ++ [newline level] ++ [newline level']) =
      collapse (strokes ++ [newline level']) := by
  induction strokes with
  | nil => simp [collapse, isBreak]
  | cons stroke strokes ih =>
    have hhead : (strokes ++ [newline level] ++ [newline level']).head?.any isBreak =
        (strokes ++ [newline level']).head?.any isBreak := by
      cases strokes <;> simp [isBreak]
    rw [List.cons_append, List.cons_append, collapse, ih, hhead, List.cons_append, collapse]

/-- After a text, or at the start, a break comes on top of the rest. -/
theorem collapse_concat_newline {strokes : List Stroke}
    (h : strokes.getLast?.any isBreak = false) (level : Nat) :
    collapse (strokes ++ [newline level]) = collapse strokes ++ [newline level] := by
  induction strokes with
  | nil => simp [collapse]
  | cons stroke strokes ih =>
    have hskip : (stroke.isBreak && (strokes ++ [newline level]).head?.any isBreak) =
        (stroke.isBreak && strokes.head?.any isBreak) := by
      cases strokes <;> simp_all
    have htail : strokes.getLast?.any isBreak = false := by
      cases strokes <;> simp_all
    rw [List.cons_append, collapse, collapse, hskip, ih htail]
    split <;> rfl

theorem getLast?_collapse (strokes : List Stroke) :
    (collapse strokes).getLast? = strokes.getLast? := by
  rcases List.eq_nil_or_concat strokes with rfl | ⟨init, last, rfl⟩
  · rfl
  · rw [List.concat_eq_append, List.getLast?_concat]
    cases last with
    | text s => rw [collapse_concat_text, List.getLast?_concat]
    | newline level =>
      obtain ⟨before, hbefore⟩ := exists_collapse_concat_newline init
      rw [hbefore, List.getLast?_concat]

theorem eq_concat_of_getLast? {strokes : List Stroke} (h : strokes.getLast?.any isBreak = true) :
    ∃ init level, strokes = init ++ [newline level] := by
  rcases List.eq_nil_or_concat strokes with rfl | ⟨init, last, rfl⟩
  · simp at h
  · cases last with
    | text s => simp [isBreak] at h
    | newline level => exact ⟨init, level, List.concat_eq_append⟩

end Stroke

/-! ## Pages -/

namespace Page

open Stroke

/-- The page has these strokes on it, in which no break follows another. -/
structure Records (page : Page) (strokes : List Stroke) : Prop where
  /-- Padding is owed to a break at the end. -/
  owed : page.owed = (strokes.getLast?.filter isBreak).map (padding page.width)
  build : page.build = String.join (strokes.map (written page.width page.terminator))
  /-- There is a part for each stroke, and one for the padding of each break that a text follows,
  unless the padding is zero. -/
  size : page.parts.size =
    strokes.length + strokes.dropLast.countP fun stroke => stroke.padding page.width ≠ 0

variable {strokes : List Stroke} {page : Page}

/-- The page is on a fresh line exactly if a break comes last. -/
theorem Records.fresh (h : page.Records strokes) :
    page.fresh = strokes.getLast?.any isBreak := by
  rw [Page.fresh, h.owed]
  rcases strokes.getLast? with _ | _ | _ <;> rfl

theorem records_nil (width : Int) (terminator : String) :
    Records { width, terminator } [] :=
  ⟨rfl, rfl, rfl⟩

/-- Settling adds a part unless no padding is owed. -/
theorem size_settle (page : Page) :
    page.settle.parts.size = page.parts.size + if page.owed.getD 0 = 0 then 0 else 1 := by
  unfold settle
  split <;> simp_all

theorem Records.append (h : page.Records strokes) {s : String} (hs : s ≠ "") :
    (page.append s).Records (strokes ++ [.text s]) := by
  obtain ⟨parts, hsettle, hjoin⟩ := page.settle_eq
  have hpage : page.append s = { page with parts := parts.push s, owed := none } := by
    simp [Page.append, hs, hsettle]
  have hparts : parts.size = page.parts.size + if page.owed.getD 0 = 0 then 0 else 1 := by
    simpa [hsettle] using page.size_settle
  have howed : page.owed.getD 0 = (strokes.getLast?.map (padding page.width)).getD 0 := by
    rw [h.owed]
    rcases strokes.getLast? with _ | _ | _ <;> rfl
  rw [hpage]
  refine ⟨by rw [List.getLast?_concat]; rfl, ?_, ?_⟩
  · rw [Page.build]
    simp [hjoin, h.build, written]
  · -- The padding that was owed to a last break is a part now.
    rw [Array.size_push, hparts, howed, h.size, List.dropLast_concat]
    rcases List.eq_nil_or_concat strokes with rfl | ⟨before, last, rfl⟩
    · simp
    · simp only [List.concat_eq_append, List.getLast?_concat, List.dropLast_concat,
        List.countP_append, List.countP_singleton, List.length_append, List.length_singleton,
        Option.map_some, Option.getD_some]
      by_cases hpad : last.padding page.width = 0 <;> simp [hpad] <;> omega

/-- On a line that has text a break ends it. -/
theorem Records.startLine (h : page.Records strokes) (hfresh : page.fresh = false) (level : Nat) :
    (page.startLine level).Records (strokes ++ [.newline level]) := by
  have howed : page.owed = none := by simpa [Page.fresh] using hfresh
  have hlast : strokes.getLast?.any isBreak = false := h.fresh ▸ hfresh
  refine ⟨by rw [List.getLast?_concat]; rfl, ?_, ?_⟩
  · have hbuild := h.build
    rw [Page.build, howed, Option.getD_none, spaces_zero, String.append_empty] at hbuild
    rw [build_startLine, hfresh, hbuild]
    simp [Page.startLine, written, String.append_assoc]
  · -- The last stroke is no break, and asks for no padding.
    have hpad : strokes.countP (fun stroke => stroke.padding page.width ≠ 0) =
        strokes.dropLast.countP fun stroke => stroke.padding page.width ≠ 0 := by
      rcases List.eq_nil_or_concat strokes with rfl | ⟨before, last, rfl⟩
      · rfl
      · cases last with
        | text s => simp [padding]
        | newline level => simp [isBreak] at hlast
    have hsize : (page.startLine level).parts.size = page.parts.size + 1 := by
      simp [Page.startLine, hfresh]
    have hwidth : (page.startLine level).width = page.width := rfl
    rw [hsize, hwidth, h.size, List.dropLast_concat, hpad, List.length_append,
      List.length_singleton]
    omega

/-- On a fresh line a break only changes the padding. -/
theorem Records.restartLine {before : List Stroke} {last : Nat}
    (h : page.Records (before ++ [.newline last])) (level : Nat) :
    (page.startLine level).Records (before ++ [.newline level]) := by
  have hfresh : page.fresh = true := by rw [h.fresh, List.getLast?_concat]; rfl
  have howed : page.owed = some (last * page.width) := by
    rw [h.owed, List.getLast?_concat]
    rfl
  refine ⟨by rw [List.getLast?_concat]; rfl, ?_, ?_⟩
  · have hbuild := h.build
    rw [Page.build, howed, Option.getD_some, List.map_append, List.map_singleton,
      String.join_append, String.join_cons, String.join_nil, String.append_empty, written,
      ← String.append_assoc, String.append_left_inj] at hbuild
    rw [build_startLine, hfresh, if_pos rfl, String.append_empty, hbuild]
    simp [Page.startLine, written, String.append_assoc]
  · simpa [Page.startLine, hfresh] using h.size

/-- Strokes on an empty page leave their runs of breaks collapsed on it. -/
theorem records_applyAll (width : Int) (terminator : String) {strokes : List Stroke}
    (h : ∀ s, .text s ∈ strokes → s ≠ "") :
    (applyAll { width, terminator } strokes).Records (collapse strokes) := by
  induction strokes using List.reverseRecOn with
  | nil => exact records_nil width terminator
  | append_singleton strokes stroke ih =>
    have hrecords := ih fun s hs => h s (by simp [hs])
    rw [applyAll, List.foldl_concat]
    cases stroke with
    | text s =>
      rw [collapse_concat_text]
      exact hrecords.append (h s (by simp))
    | newline level =>
      cases hlast : strokes.getLast?.any isBreak with
      | false =>
        rw [collapse_concat_newline hlast]
        exact hrecords.startLine (by rw [hrecords.fresh, getLast?_collapse, hlast]) level
      | true =>
        obtain ⟨init, last, rfl⟩ := eq_concat_of_getLast? hlast
        obtain ⟨before, hbefore⟩ := exists_collapse_concat_newline init
        rw [collapse_concat_newline_newline, hbefore]
        rw [hbefore] at hrecords
        exact hrecords.restartLine level

/-- A break on a fresh line leaves what it would leave without the one before. -/
theorem startLine_startLine (page : Page) (level level' : Nat) :
    (page.startLine level).startLine level' = page.startLine level' := by
  simp [startLine, Page.fresh]

theorem build_append (page : Page) (s : String) : (page.append s).build = page.build ++ s := by
  by_cases hs : s = ""
  · simp [append, hs]
  · obtain ⟨parts, hsettle, hjoin⟩ := page.settle_eq
    rw [← hjoin, build]
    simp [append, hs, hsettle]

end Page

/-! ## Steps -/

namespace PageStep

/-- The step writes no token: it puts a text, starts a line or clears the page. -/
def isDirect : PageStep → Bool
  | append _ => true
  | newline _ => true
  | clear => true
  | _ => false

/-- The step clears the page. -/
def isClear : PageStep → Bool
  | clear => true
  | _ => false

/-- The stroke a step comes to. An empty text and a line left of the margin come to none. -/
def stroke? : PageStep → Option Stroke
  | append s => if s = "" then none else some (.text s)
  | newline level => if level < 0 then none else some (.newline level.toNat)
  | _ => none

/-- The fault of a line that was to start left of the margin. -/
def fault? : PageStep → Option Fault
  | newline level => if level < 0 then some (.negativeLevel level) else none
  | _ => none

/-- The strokes that steps come to, those since the last clearing. -/
def history (steps : List PageStep) : List Stroke :=
  (steps.rtakeWhile fun step => !step.isClear).filterMap stroke?

/-- The page after some steps. -/
def pageAfter (limits : Thresholds) (page : Page) (steps : List PageStep) : Page :=
  steps.foldl (fun page step => (step.run limits page).page) page

variable {limits : Thresholds} {page : Page}

theorem history_concat_clear (steps : List PageStep) : history (steps ++ [clear]) = [] := by
  rw [history, List.rtakeWhile_concat_neg _ _ _ (by simp [isClear]), List.filterMap_nil]

theorem history_concat (steps : List PageStep) {step : PageStep} (h : step.isClear = false) :
    history (steps ++ [step]) = history steps ++ step.stroke?.toList := by
  rw [history, List.rtakeWhile_concat_pos _ _ _ (by simp [h]), List.filterMap_append, history]
  cases hs : step.stroke? <;> simp [hs]

theorem ne_empty_of_mem_history {steps : List PageStep} {s : String}
    (h : .text s ∈ history steps) : s ≠ "" := by
  obtain ⟨step, -, hstep⟩ := List.mem_filterMap.1 h
  cases step with
  | append s' =>
    rw [stroke?] at hstep
    split at hstep <;> simp_all
  | newline level =>
    rw [stroke?] at hstep
    split at hstep <;> simp_all
  | _ => simp [stroke?] at hstep

/-- A step that is not a clearing does what its stroke asks for, if it comes to one. -/
theorem run_of_isDirect {step : PageStep} (hdirect : step.isDirect = true)
    (hclear : step.isClear = false) :
    step.run limits page = ⟨page.applyAll step.stroke?.toList, step.fault?⟩ := by
  cases step with
  | append s =>
    by_cases hs : s = "" <;> simp [run, Page.append, stroke?, fault?, hs, Page.applyAll, Page.apply]
  | newline level =>
    by_cases hl : level < 0 <;>
      simp [run, Page.newline, stroke?, fault?, hl, Page.applyAll, Page.apply]
  | clear => simp [isClear] at hclear
  | _ => simp [isDirect] at hdirect

/-- The page after some steps has the strokes of their history on it, and nothing else. -/
theorem pageAfter_eq (width : Int) (terminator : String) {steps : List PageStep}
    (h : ∀ step ∈ steps, step.isDirect = true) :
    pageAfter limits { width, terminator } steps =
      Page.applyAll { width, terminator } (history steps) := by
  induction steps using List.reverseRecOn with
  | nil => rfl
  | append_singleton steps step ih =>
    have hpage := ih fun s hs => h s (by simp [hs])
    rw [pageAfter] at hpage
    rw [pageAfter, List.foldl_concat, hpage]
    cases hclear : step.isClear with
    | true =>
      obtain rfl : step = clear := by cases step <;> simp_all [isClear]
      obtain ⟨hwidth, hterminator⟩ := Page.frame_applyAll { width, terminator } (history steps)
      rw [history_concat_clear, run, Page.clear, hwidth, hterminator]
      rfl
    | false =>
      rw [history_concat steps hclear, run_of_isDirect (h step (by simp)) hclear]
      simp [Page.applyAll]

theorem getElem?_runAll (steps : List PageStep) (k : Nat) :
    (runAll limits page steps)[k]? =
      steps[k]?.map fun step => step.run limits (pageAfter limits page (steps.take k)) := by
  induction steps generalizing page k with
  | nil => rfl
  | cons step steps ih =>
    cases k with
    | zero => rfl
    | succ k => simpa [runAll, pageAfter] using ih k

theorem length_runAll (steps : List PageStep) :
    (runAll limits page steps).length = steps.length := by
  induction steps generalizing page with
  | nil => rfl
  | cons step steps ih => rw [runAll, List.length_cons, List.length_cons, ih]

theorem pageAfter_take_succ {steps : List PageStep} {k : Nat} {step : PageStep}
    (h : steps[k]? = some step) :
    pageAfter limits page (steps.take (k + 1)) =
      (step.run limits (pageAfter limits page (steps.take k))).page := by
  rw [List.take_add_one, h, Option.toList_some, pageAfter, List.foldl_concat, pageAfter]

/-- What is seen of a page while steps are run on it follows from the steps alone. -/
structure Explained (limits : Thresholds) (width : Int) (terminator : String)
    (steps : List PageStep) : Prop where
  /-- After any number of the steps their history is on the page, its runs of breaks collapsed. -/
  shows : ∀ k : Nat, let page := pageAfter limits { width, terminator } (steps.take k)
    let strokes := Stroke.collapse (history (steps.take k))
    page.width = width ∧ page.terminator = terminator ∧ page.Records strokes ∧
      (page.fresh = true ↔ ∃ level, strokes.getLast? = some (.newline level))
  /-- There is a view after each step, and looking at the page takes no part in what is seen
  later. -/
  length : (runAll limits { width, terminator } steps).length = steps.length
  view : ∀ (k : Nat) (view : PageView),
    (runAll limits { width, terminator } steps)[k]? = some view →
    view.page = pageAfter limits { width, terminator } (steps.take (k + 1)) ∧
      view.fault = steps[k]?.bind fault?
  /-- A line left of the margin is refused, and leaves the page exactly as it was. -/
  refused : ∀ page level, level < 0 → (newline level).run limits page =
    ⟨page, some (.negativeLevel level)⟩ ∧
      (Fault.negativeLevel level).notice?.map Notice.family = some .render
  /-- Of two breaks the first has no effect. -/
  newline_newline : ∀ (page : Page) (first second : Int), 0 ≤ first → 0 ≤ second →
    pageAfter limits page [newline first, newline second] = pageAfter limits page [newline second]
  /-- Two texts are built as one. -/
  append_append : ∀ (page : Page) (first second : String),
    (pageAfter limits page [append first, append second]).build =
      (pageAfter limits page [append (first ++ second)]).build

theorem run_newline_of_neg {level : Int} (h : level < 0) :
    (newline level).run limits page = ⟨page, some (.negativeLevel level)⟩ := by
  simp [run, Page.newline, h]

theorem run_newline_of_nonneg {level : Int} (h : 0 ≤ level) :
    (newline level).run limits page = ⟨page.startLine level.toNat, none⟩ := by
  simp [run, Page.newline, Int.not_lt.2 h]

/-- A page is explained by the steps that are run on it, for every width and terminator. -/
theorem explained_runAll (limits : Thresholds) (width : Int) (terminator : String)
    {steps : List PageStep} (h : ∀ step ∈ steps, step.isDirect = true) :
    Explained limits width terminator steps where
  shows k := by
    have hdirect : ∀ step ∈ steps.take k, step.isDirect = true :=
      fun step hstep => h step (List.mem_of_mem_take hstep)
    have hrecords : (Page.applyAll { width, terminator } (history (steps.take k))).Records _ :=
      Page.records_applyAll width terminator fun s hs => ne_empty_of_mem_history hs
    obtain ⟨hwidth, hterminator⟩ :=
      Page.frame_applyAll { width, terminator } (history (steps.take k))
    rw [pageAfter_eq width terminator hdirect]
    refine ⟨hwidth, hterminator, hrecords, ?_⟩
    rw [hrecords.fresh]
    rcases (Stroke.collapse (history (steps.take k))).getLast? with _ | _ | _ <;>
      simp [Stroke.isBreak]
  length := length_runAll steps
  view k view hview := by
    rw [getElem?_runAll] at hview
    obtain ⟨step, hstep, rfl⟩ := Option.map_eq_some_iff.1 hview
    refine ⟨(pageAfter_take_succ hstep).symm, ?_⟩
    rw [hstep, Option.bind_some]
    cases hclear : step.isClear with
    | true =>
      obtain rfl : step = clear := by cases step <;> simp_all [isClear]
      rfl
    | false => rw [run_of_isDirect (h step (List.mem_of_getElem? hstep)) hclear]
  refused page level hlevel := ⟨run_newline_of_neg hlevel, rfl⟩
  newline_newline page first second hfirst hsecond := by
    simp only [pageAfter, List.foldl_cons, List.foldl_nil, run_newline_of_nonneg hfirst,
      run_newline_of_nonneg hsecond, Page.startLine_startLine]
  append_append page first second := by
    simp only [pageAfter, List.foldl_cons, List.foldl_nil, run, Page.build_append,
      String.append_assoc]

/-- Breaks that follow one another, one of them refused, round an empty text and after a
clearing. -/
theorem explained_runAll_cleared :
    let steps : List PageStep := [append "a", newline 1, clear, append "b", newline 4, newline (-1),
      append "", newline 2, append "c", newline 0]
    (∀ step ∈ steps, step.isDirect = true) ∧ Explained {} (-1) "" steps ∧
      let page := pageAfter {} { width := 3, terminator := "\n" } steps
      page.build = "b\n      c\n" ∧ page.fresh = true ∧ page.parts.size = 5 := by
  intro steps
  have h : ∀ step ∈ steps, step.isDirect = true := by simp [steps, isDirect]
  refine ⟨h, explained_runAll {} (-1) "" h, ?_⟩
  have hshows := (explained_runAll {} 3 "\n" h).shows steps.length
  rw [List.take_length] at hshows
  obtain ⟨hwidth, hterminator, hrecords, hfresh⟩ := hshows
  refine ⟨?_, hfresh.2 ⟨0, rfl⟩, ?_⟩
  · rw [hrecords.build, hwidth, hterminator]
    decide
  · rw [hrecords.size, hwidth]
    decide

end PageStep

end TokenLayout
