import TokenLayout.Proofs.Alignment
import TokenLayout.Proofs.Planning

/-!
# Writing is local to the end of a page

A token is written after what is on a page, and all that it finds out about the page is whether a
break is still without its text. So two pages that are alike but for their parts get the same parts
added and are left alike again, with the same fault if there is one (`Store.write_appends`).

A layout is a list of strokes, done once it is complete. `InPlace` is the other way to write, where
each stroke is done as it is asked for and a fault leaves the page as it is at that moment. Both
come to the same (`Token.does_write`), so what is written before a fault stays.
-/

namespace TokenLayout

/-! ## Pages that are alike -/

/-- The pages differ in nothing but their parts. -/
structure Page.Alike (page page' : Page) : Prop where
  width : page'.width = page.width
  terminator : page'.terminator = page.terminator
  owed : page'.owed = page.owed

namespace Page

variable {page page' : Page}

/-- The page without its parts. -/
def emptied (page : Page) : Page :=
  { page with parts := #[] }

/-- Pages that are alike differ only in what stands on them. -/
theorem Alike.emptied_eq (h : page.Alike page') : page'.emptied = page.emptied := by
  simp only [emptied, h.width, h.terminator, h.owed]

theorem Alike.fresh_eq (h : page.Alike page') : page'.fresh = page.fresh := by
  rw [fresh, fresh, h.owed]

/-- A page is what stands on it, put before a page of its kind with nothing on it. -/
theorem prepend_emptied (page : Page) : page.emptied.prepend page.parts = page := by
  simp [prepend, emptied]

/-- Strokes add parts, and what they add does not depend on the parts that are there. -/
theorem applyAll_eq (page : Page) (strokes : List Stroke) : page.applyAll strokes =
    { page with
      parts := page.parts ++ (page.emptied.applyAll strokes).parts
      owed := (page.emptied.applyAll strokes).owed } := by
  obtain ⟨hwidth, hterminator⟩ := page.emptied.frame_applyAll strokes
  calc page.applyAll strokes
    _ = (page.emptied.applyAll strokes).prepend page.parts := by
      rw [← applyAll_prepend, prepend_emptied]
    _ = _ := by
      rw [prepend, hwidth, hterminator]
      rfl

end Page

/-! ## Writing in place -/

/-- A computation that works on a page as it goes. What it did to the page stays there when it
stops. -/
structure InPlace (α : Type) where
  run : Page → Memo → Page × Memo × Except Fault α

namespace InPlace

variable {α β : Type}

instance : Monad InPlace where
  pure a := ⟨fun page memo => (page, memo, .ok a)⟩
  bind x f := ⟨fun page memo =>
    match x.run page memo with
    | (page, memo, .ok a) => (f a).run page memo
    | (page, memo, .error fault) => (page, memo, .error fault)⟩

/-- Stops. -/
def fail (fault : Fault) : InPlace α :=
  ⟨fun page memo => (page, memo, .error fault)⟩

/-- Whether the page is on a fresh line. -/
def onFreshLine : InPlace Bool :=
  ⟨fun page memo => (page, memo, .ok page.fresh)⟩

/-- Puts a text on the page. -/
def text (s : String) : InPlace Unit :=
  ⟨fun page memo => (page.append s, memo, .ok ())⟩

/-- Goes to the start of a line. -/
def newline (level : Int) : InPlace Unit :=
  ⟨fun page memo =>
    match page.newline level with
    | .ok page => (page, memo, .ok ())
    | .error fault => (page, memo, .error fault)⟩

/-- Does something on a condition. -/
def when (condition : Bool) (x : InPlace Unit) : InPlace Unit :=
  if condition then x else pure ()

/-- Takes a measurement. -/
def reading (x : Reading α) : InPlace α :=
  ⟨fun page memo =>
    match x.run memo with
    | (some a, memo) => (page, memo, .ok a)
    | (none, memo) => (page, memo, .error .unmeasurable)⟩

end InPlace

namespace Token

mutual

/-- Writes a token at `level`. -/
def writeInPlace (limits : Thresholds) : Token → (level : Int) → InPlace Unit
  | leaf _ _ text, _ => .text text
  | group tag commas forced parts, level => do
    let broken ← InPlace.reading ((group tag commas forced parts).readMultiline limits)
    writePartsInPlace limits commas broken true parts level
  | bracket _ frame body, level =>
    if frame.ownLine then do
      InPlace.newline level
      InPlace.text frame.opening
      let broken ← InPlace.reading (body.readMultiline limits)
      let inner := if broken then level + 1 else level
      InPlace.newline inner
      body.writeInPlace limits (inner + body.tag.inset)
      InPlace.when broken (InPlace.newline level)
      InPlace.text frame.closing
    else do
      let bare := frame.bare body
      let fresh ← InPlace.onFreshLine
      let broken ← InPlace.reading (body.readMultiline limits)
      let inner := if broken then level + 1 else level
      InPlace.when fresh (InPlace.newline inner)
      InPlace.when (!bare) (InPlace.text frame.opening)
      body.writeInPlace limits (inner + body.tag.inset)
      InPlace.when broken (InPlace.newline (if bare then level else inner))
      InPlace.when (!bare) (InPlace.text frame.closing)
  | blank _, _ => .fail (.unwritable (.token .blank))
  | foreign .., _ => .fail (.unwritable (.token .foreign))

/-- Writes the parts of a group at `level`, the first of them or those after it. -/
def writePartsInPlace (limits : Thresholds) (commas broken : Bool) :
    (first : Bool) → List Token → (level : Int) → InPlace Unit
  | _, [], _ => pure ()
  | first, part :: parts, level => do
    let inner := level + part.tag.inset
    InPlace.when (commas && !first) (InPlace.text separatorText)
    InPlace.when (broken && part.tag.breakable) (InPlace.newline inner)
    part.writeInPlace limits inner
    writePartsInPlace limits commas broken false parts level

end

end Token

namespace Layout

variable {α β : Type}

/-- To work on a page is to do the strokes of the layout on it. -/
def Does (x : Layout α) (y : InPlace α) : Prop :=
  ∀ (page : Page) (memo : Memo), y.run page memo =
    (page.applyAll (x.run page.fresh memo).strokes, (x.run page.fresh memo).memo,
      (x.run page.fresh memo).result)

theorem does_pure (a : α) : (pure a : Layout α).Does (pure a) :=
  fun _ _ => rfl

theorem does_fail (fault : Fault) : (fail fault : Layout α).Does (.fail fault) :=
  fun _ _ => rfl

theorem does_onFreshLine : onFreshLine.Does .onFreshLine :=
  fun _ _ => rfl

theorem does_text (s : String) : (text s).Does (.text s) :=
  fun _ _ => rfl

theorem does_newline (level : Int) : (newline level).Does (.newline level) := by
  intro page memo
  by_cases hl : level < 0
  · simp [newline, InPlace.newline, Page.newline, hl, Page.applyAll]
  · simp [newline, InPlace.newline, Page.newline, hl, Page.applyAll, Page.apply]

theorem does_reading (x : Reading α) : (reading x).Does (.reading x) := by
  intro page memo
  simp only [reading, InPlace.reading]
  rcases x.run memo with ⟨_ | a, memo'⟩ <;> rfl

variable {x : Layout α} {y : InPlace α}

/-- The strokes that were done are what the rest of a layout needs to know of the page. -/
theorem Does.bind (hx : x.Does y) {f : α → Layout β} {g : α → InPlace β}
    (hf : ∀ a, (f a).Does (g a)) : (x >>= f).Does (y >>= g) := by
  intro page memo
  have hrun : (y >>= g).run page memo =
      match y.run page memo with
      | (page, memo, .ok a) => (g a).run page memo
      | (page, memo, .error fault) => (page, memo, .error fault) := rfl
  rw [hrun, hx page memo, run_bind]
  rcases x.run page.fresh memo with ⟨strokes, memo', _ | a⟩
  · rfl
  · have hrest := hf a (page.applyAll strokes) memo'
    rw [Page.fresh_applyAll] at hrest
    refine hrest.trans ?_
    rw [Page.applyAll, Page.applyAll, Page.applyAll, List.foldl_append]

theorem Does.when {x : Layout Unit} {y : InPlace Unit} (hx : x.Does y) (condition : Bool) :
    (when condition x).Does (.when condition y) := by
  cases condition
  · exact does_pure ()
  · exact hx

end Layout

namespace Token

open Layout

variable (limits : Thresholds)

mutual

/-- Writing in place asks for the strokes that the layout asks for. -/
theorem does_write : ∀ (t : Token) (level : Int),
    (t.write limits level).Does (t.writeInPlace limits level)
  | leaf _ _ text, _ => by
    rw [write, writeInPlace]
    exact does_text text
  | group tag commas forced parts, level => by
    rw [write, writeInPlace]
    exact (does_reading _).bind fun broken => does_writeParts commas broken true parts level
  | bracket _ frame body, level => by
    rw [write, writeInPlace]
    split
    · exact (does_newline _).bind fun _ => (does_text _).bind fun _ => (does_reading _).bind
        fun _ => (does_newline _).bind fun _ => (does_write body _).bind fun _ =>
        ((does_newline _).when _).bind fun _ => does_text _
    · exact does_onFreshLine.bind fun _ => (does_reading _).bind fun _ =>
        ((does_newline _).when _).bind fun _ => ((does_text _).when _).bind fun _ =>
        (does_write body _).bind fun _ => ((does_newline _).when _).bind fun _ =>
        (does_text _).when _
  | blank _, _ => by
    rw [write, writeInPlace]
    exact does_fail _
  | foreign .., _ => by
    rw [write, writeInPlace]
    exact does_fail _

theorem does_writeParts (commas broken : Bool) : ∀ (first : Bool) (parts : List Token)
    (level : Int), (writeParts limits commas broken first parts level).Does
      (writePartsInPlace limits commas broken first parts level)
  | _, [], _ => by
    rw [writeParts, writePartsInPlace]
    exact does_pure ()
  | first, part :: parts, level => by
    rw [writeParts, writePartsInPlace]
    exact ((does_text _).when _).bind fun _ => ((does_newline _).when _).bind fun _ =>
      (does_write part _).bind fun _ => does_writeParts commas broken false parts level

end

end Token

/-- Two pages that are alike but for their parts, and a token written on both at any level, on each
for itself or on one after the other. The same parts come after those that are there, the same
padding is owed in the end, and the result is the same. What a fault leaves is what was written
before it. -/
theorem Store.write_appends {store : Store} {id : TokenId} {t : Token}
    (ht : store.tree? id = some t) (limits : Thresholds) (level : Int) {page page' : Page}
    (h : page.Alike page') :
    ∃ (appended : Array String) (owed : Option Int) (result : Except Fault Unit) (memo : Memo),
      store.write limits id level page =
        (result, { page with parts := page.parts ++ appended, owed }, { store with memo }) ∧
      store.write limits id level page' =
        (result, { page' with parts := page'.parts ++ appended, owed }, { store with memo }) ∧
      (t.writeInPlace limits level).run page store.memo =
        ({ page with parts := page.parts ++ appended, owed }, memo, result) ∧
      ∃ memo', ({ store with memo } : Store).write limits id level page' =
        (result, { page' with parts := page'.parts ++ appended, owed },
          { store with memo := memo' }) := by
  have hstands := (standsIn_of_tree? ht).2
  have hsteady : (t.write limits level).Steady limits store :=
    Token.steady_write t level hstands
  obtain ⟨strokes, result, hplan⟩ := hsteady page.fresh
  obtain ⟨memo, hrun, hfills⟩ := hplan store (.refl store)
  obtain ⟨memo', hrun', -⟩ := hplan _ (.of_fills hfills)
  have hpage := page.applyAll_eq strokes
  have hpage' := page'.applyAll_eq strokes
  rw [h.emptied_eq] at hpage'
  refine ⟨(page.emptied.applyAll strokes).parts, (page.emptied.applyAll strokes).owed, result, memo,
    ?_, ?_, ?_, memo', ?_⟩
  · simp only [write, ht, Page.write, hrun, hpage]
  · simp only [write, ht, Page.write, h.fresh_eq, hrun, hpage']
  · rw [Token.does_write limits t level, hrun, hpage]
  · have ht' := (tree?_congr hfills.entries_eq id).trans ht
    simp only [write, ht', Page.write, h.fresh_eq, hrun', hpage']

/-- A list that stops at its second element, which is to start a line above the first level. The
padding that is owed, the first element and the separator stay on both pages. -/
theorem Store.write_appends_above :
    let store : Store := { entries := #[⟨{}, .leaf .word "a"⟩,
      ⟨{ breakable := true }, .leaf .word "b"⟩, ⟨{}, .group true (some true) [0, 1]⟩] }
    let page : Page := { parts := #["x"], owed := some 2 }
    let page' : Page := { parts := #["y", "\r\n"], owed := some 2 }
    page.Alike page' ∧ (store.write {} 2 (-1) page).1 = .error (.negativeLevel (-1)) ∧
      (store.write {} 2 (-1) page).2.1.parts = #["x", "  ", "a", ", "] ∧
      ∃ appended owed, (store.write {} 2 (-1) page).2.1 =
          { page with parts := page.parts ++ appended, owed } ∧
        (store.write {} 2 (-1) page').2.1 =
          { page' with parts := page'.parts ++ appended, owed } ∧
        (store.write {} 2 (-1) page').1 = (store.write {} 2 (-1) page).1 := by
  intro store page page'
  have halike : page.Alike page' := ⟨rfl, rfl, rfl⟩
  obtain ⟨t, ht⟩ : ∃ t, store.tree? 2 = some t := ⟨_, rfl⟩
  obtain ⟨appended, owed, result, memo, hpage, hpage', -, -⟩ := write_appends ht {} (-1) halike
  refine ⟨halike, by decide, by decide, appended, owed, ?_, ?_, ?_⟩
  · rw [hpage]
  · rw [hpage']
  · rw [hpage', hpage]

end TokenLayout
