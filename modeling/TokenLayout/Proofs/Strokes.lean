import TokenLayout.Proofs.FlatText
import TokenLayout.Proofs.Planning

/-!
# The strokes of a tree

`Token.strokes` are the strokes of a tree by recursion on it, given for each of its tokens whether
it is broken, and nothing of measurements or faults. In a store they are what a writable tree is
written by, with the tokens broken that are found to take several lines at the start
(`Token.plans_write`).
-/

namespace TokenLayout

theorem Stroke.freshAfterAll_append (fresh : Bool) (strokes strokes' : List Stroke) :
    freshAfterAll fresh (strokes ++ strokes') =
      freshAfterAll (freshAfterAll fresh strokes) strokes' := by
  simp [freshAfterAll]

namespace Frame

/-- The strokes of a bracket before its body, which is set at the level `inner`. -/
def before (frame : Frame) (bare fresh : Bool) (level inner : Nat) : List Stroke :=
  if frame.ownLine then [.newline level, .text frame.opening, .newline inner]
  else (if fresh then [.newline inner] else []) ++ if !bare then [.text frame.opening] else []

/-- The strokes of a bracket after its body. -/
def after (frame : Frame) (bare broken : Bool) (level inner : Nat) : List Stroke :=
  (if broken then [.newline (if frame.ownLine || bare then level else inner)] else []) ++
    if !bare then [.text frame.closing] else []

end Frame

namespace Token

/-- The strokes of a group before one of its parts. -/
def lead (commas split first : Bool) (part : Token) (level : Nat) : List Stroke :=
  (if commas && !first then [.text separatorText] else []) ++
    if split && part.tag.breakable then [.newline (level + part.tag.inset)] else []

mutual

/-- The strokes of a token at `level`. Tokens that cannot be written have none. -/
def strokes (broken : Token → Bool) : Token → (level : Nat) → (fresh : Bool) → List Stroke
  | leaf _ _ text, _, _ => [.text text]
  | group tag commas forced parts, level, fresh =>
    partStrokes broken commas (broken (group tag commas forced parts)) true parts level fresh
  | bracket _ frame body, level, fresh =>
    let inner := if broken body then level + 1 else level
    let before := frame.before (frame.bare body) fresh level inner
    before ++ body.strokes broken (inner + body.tag.inset) (Stroke.freshAfterAll fresh before) ++
      frame.after (frame.bare body) (broken body) level inner
  | blank _, _, _ => []
  | foreign .., _, _ => []

/-- The strokes of the parts of a group, the first of them or those after it. -/
def partStrokes (broken : Token → Bool) (commas split : Bool) :
    (first : Bool) → List Token → (level : Nat) → (fresh : Bool) → List Stroke
  | _, [], _, _ => []
  | first, part :: parts, level, fresh =>
    let lead := lead commas split first part level
    let own := lead ++
      part.strokes broken (level + part.tag.inset) (Stroke.freshAfterAll fresh lead)
    own ++ partStrokes broken commas split false parts level (Stroke.freshAfterAll fresh own)

end

/-- The token is found to take several lines. -/
def broken (limits : Thresholds) (memo : Memo) (token : Token) : Bool :=
  ((token.readMultiline limits).run memo).1 == some true

variable {limits : Thresholds} {store : Store}

/-- A writable token of a store has a decision. -/
theorem multilineIn?_of_writable {t : Token} (h : t.Writable) (hs : t.StandsIn store) :
    t.multilineIn? limits store.memo = some (t.broken limits store.memo) := by
  obtain ⟨b, memo, hrun⟩ := total_readMultiline limits t h store.memo
  obtain ⟨memo', hrun', -⟩ := leads_readMultiline limits t hs
  rw [hrun, Prod.mk.injEq] at hrun'
  rw [broken, hrun, ← hrun'.1]
  cases b <;> rfl

theorem plans_reading_broken {t : Token} (h : t.Writable) (hs : t.StandsIn store) (fresh : Bool) :
    (Layout.reading (t.readMultiline limits)).Plans limits store fresh []
      (.ok (t.broken limits store.memo)) := by
  have hplan : (Layout.reading (t.readMultiline limits)).Plans limits store fresh [] _ :=
    Layout.plans_reading hs
  rwa [multilineIn?_of_writable h hs] at hplan

mutual

/-- In a store a writable tree is written by its strokes. -/
theorem plans_write : ∀ (t : Token) (level : Nat) (fresh : Bool), t.Writable → t.StandsIn store →
    (t.write limits level).Plans limits store fresh
      (t.strokes (broken limits store.memo) level fresh) (.ok ())
  | leaf _ _ text, _, _, _, _ => by
    rw [write, strokes]
    exact Layout.plans_text text
  | group tag commas forced parts, level, fresh, h, hs => by
    rw [write, strokes]
    exact .after (plans_writeParts commas _ true parts level fresh h.part hs.part)
      (plans_reading_broken h hs fresh)
  | bracket tag frame body, level, fresh, h, hs => by
    have hread (fresh : Bool) :
        (Layout.reading (body.readMultiline limits)).Plans limits store fresh [] _ :=
      plans_reading_broken h.body hs.body fresh
    rw [write, strokes]
    generalize body.broken limits store.memo = b at hread ⊢
    generalize hinner : (if b then level + 1 else level) = inner
    have hcast : (if b then (level : Int) + 1 else level) = inner := by
      rw [← hinner]
      split <;> simp
    have hbody (fresh : Bool) := plans_write body (inner + body.tag.inset) fresh h.body hs.body
    rw [Int.natCast_add] at hbody
    cases hown : frame.ownLine with
    | true =>
      have hbare : frame.bare body = false := by simp [Frame.bare, hown]
      simp only [Frame.before, Frame.after, hown, hbare, if_true, Bool.true_or, Bool.not_false,
        List.append_assoc]
      refine (Layout.plans_newline level).bind ?_
      refine (Layout.plans_text frame.opening).bind ?_
      refine .after ?_ (hread _)
      rw [hcast]
      refine (Layout.plans_newline inner).bind ?_
      refine (hbody _).bind ?_
      exact ((Layout.plans_newline level).when b).bind (Layout.plans_text frame.closing)
    | false =>
      have hclose (fresh : Bool) :
          (Layout.newline (if frame.bare body then (level : Int) else inner)).Plans limits store
            fresh [.newline (if frame.bare body then level else inner)] (.ok ()) := by
        split
        · exact Layout.plans_newline level
        · exact Layout.plans_newline inner
      simp only [Frame.before, Frame.after, hown, Bool.false_eq_true, if_false, Bool.false_or,
        List.append_assoc, Stroke.freshAfterAll_append]
      refine .after ?_ Layout.plans_onFreshLine
      refine .after ?_ (hread _)
      rw [hcast]
      refine ((Layout.plans_newline inner).when fresh).bind ?_
      refine ((Layout.plans_text frame.opening).when _).bind ?_
      refine (hbody _).bind ?_
      exact ((hclose _).when b).bind ((Layout.plans_text frame.closing).when _)
  | blank tag, _, _, h, _ => absurd h (not_writable_blank tag)
  | foreign tag length multiline, _, _, h, _ => absurd h (not_writable_foreign tag length multiline)

theorem plans_writeParts (commas split : Bool) : ∀ (first : Bool) (parts : List Token)
    (level : Nat) (fresh : Bool), (∀ part ∈ parts, part.Writable) →
    (∀ part ∈ parts, part.StandsIn store) →
    (writeParts limits commas split first parts level).Plans limits store fresh
      (partStrokes (broken limits store.memo) commas split first parts level fresh) (.ok ())
  | _, [], _, _, _, _ => by
    rw [writeParts, partStrokes]
    exact Layout.plans_pure ()
  | first, part :: parts, level, fresh, h, hs => by
    have hpart (fresh : Bool) := plans_write part (level + part.tag.inset) fresh
      (h part (by simp)) (hs part (by simp))
    have hparts (fresh : Bool) := plans_writeParts commas split false parts level fresh
      (fun p hp => h p (by simp [hp])) fun p hp => hs p (by simp [hp])
    have hnewline (fresh : Bool) :
        (Layout.newline ((level : Int) + part.tag.inset)).Plans limits store fresh
          [.newline (level + part.tag.inset)] (.ok ()) :=
      Layout.plans_newline (level + part.tag.inset)
    rw [Int.natCast_add] at hpart
    rw [writeParts, partStrokes]
    simp only [lead, List.append_assoc, Stroke.freshAfterAll_append]
    refine ((Layout.plans_text separatorText).when _).bind ?_
    refine ((hnewline _).when _).bind ?_
    exact (hpart _).bind (hparts _)

end

/-- The lines of a tree are those of its strokes. -/
theorem lines_eq_ofStrokes {t : Token} (h : t.Writable) (hs : t.StandsIn store) :
    t.lines limits store.memo = .ofStrokes (t.strokes (broken limits store.memo) 0 false) := by
  obtain ⟨memo, hrun, -⟩ := plans_write t 0 false h hs store (.refl store)
  rw [lines]
  exact congrArg (fun draft => Lines.ofStrokes draft.strokes) hrun

end Token

/-- A writable tree is written on any page, by its strokes. -/
theorem Store.write_of_writable {store : Store} {id : TokenId} {t : Token}
    (ht : store.tree? id = some t) (h : t.Writable) (limits : Thresholds) (level : Nat)
    (page : Page) :
    (store.write limits id level page).1 = .ok () ∧
      (store.write limits id level page).2.1 =
        page.applyAll (t.strokes (Token.broken limits store.memo) level page.fresh) := by
  have hplan : (t.write limits level).Plans limits store page.fresh _ (.ok ()) :=
    t.plans_write level page.fresh h (standsIn_of_tree? ht).2
  obtain ⟨memo, hrun, -⟩ := hplan store (.refl store)
  simp [write, ht, Page.write, hrun]

/-! ## Their text -/

namespace Frame

theorem bare_of_ownLine {frame : Frame} (h : frame.ownLine = true) (body : Token) :
    frame.bare body = false := by
  simp [bare, h]

variable (frame : Frame) (body : Token) (broken fresh : Bool) (level inner : Nat)

theorem contents_before : Stroke.contents (frame.before (frame.bare body) fresh level inner) =
    if frame.bare body then "" else frame.opening := by
  cases hown : frame.ownLine with
  | true => simp [before, hown, bare_of_ownLine hown, Stroke.content]
  | false =>
    cases fresh <;> cases frame.bare body <;> simp [before, hown, Stroke.content]

theorem contents_after : Stroke.contents (frame.after (frame.bare body) broken level inner) =
    if frame.bare body then "" else frame.closing := by
  cases broken <;> cases frame.bare body <;> simp [after, Stroke.content]

end Frame

namespace Token

theorem contents_lead (commas split first : Bool) (part : Token) (level : Nat) :
    Stroke.contents (lead commas split first part level) =
      if commas && !first then separatorText else "" := by
  rw [lead, Stroke.contents_append]
  cases commas && !first <;> cases split && part.tag.breakable <;> simp [Stroke.content]

mutual

/-- The strokes of a tree ask for its flat text. -/
theorem contents_strokes (broken : Token → Bool) : ∀ (t : Token) (level : Nat) (fresh : Bool),
    Stroke.contents (t.strokes broken level fresh) = t.flat
  | leaf _ _ text, _, _ => by simp [strokes, flat, Stroke.content]
  | group _ _ _ parts, level, fresh => by
    rw [strokes, flat, contents_partStrokes broken _ _ true parts level fresh]
  | bracket _ frame body, level, fresh => by
    rw [strokes, flat, Stroke.contents_append, Stroke.contents_append, Frame.contents_before,
      Frame.contents_after, contents_strokes broken body]
    cases frame.bare body <;> simp
  | blank _, _, _ => by simp [strokes, flat]
  | foreign .., _, _ => by simp [strokes, flat]

theorem contents_partStrokes (broken : Token → Bool) (commas split : Bool) :
    ∀ (first : Bool) (parts : List Token) (level : Nat) (fresh : Bool),
      Stroke.contents (partStrokes broken commas split first parts level fresh) =
        flats commas first parts
  | _, [], _, _ => by simp [partStrokes, flats]
  | first, part :: parts, level, fresh => by
    rw [partStrokes, flats, Stroke.contents_append, Stroke.contents_append, contents_lead,
      contents_strokes broken part, contents_partStrokes broken commas split false parts]

end

end Token

end TokenLayout
