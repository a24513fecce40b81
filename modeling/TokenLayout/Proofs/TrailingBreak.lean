import TokenLayout.Proofs.Strokes

/-!
# Breaks left at the end

A bracket whose body takes several lines asks for a break after its body, and for its closing text
unless it is bare. The two are decided apart, so a bare bracket round a broken body leaves the page
on a fresh line (`Store.fresh_write_bare`), and so does every tree that ends with one. There is no
other way: if no text of a tree is empty, the page is on a fresh line after it exactly if the tree
ends with such a bracket (`Store.fresh_write_iff`).
-/

namespace TokenLayout

namespace Token

/-- A leaf or a closing text that is not empty, or a group that has a part. -/
def isSolid : Token → Bool
  | leaf _ _ text => !text.isEmpty
  | group _ _ _ parts => !parts.isEmpty
  | bracket _ frame _ => !frame.closing.isEmpty
  | _ => true

/-- No leaf and no closing text of the tree is empty, and every group has a part. -/
def Solid (token : Token) : Prop :=
  token.Every fun t => t.isSolid

instance (token : Token) : Decidable token.Solid :=
  inferInstanceAs (Decidable (token.Every fun t => t.isSolid = true))

/-- The tree ends with the other one: nothing is written after it but breaks. -/
inductive EndsWith : Token → Token → Prop
  | refl (t : Token) : EndsWith t t
  | part {tag : Tag} {commas : Bool} {forced : Option Bool} {parts : List Token} {last t : Token}
      (hlast : parts.getLast? = some last) (ht : EndsWith last t) :
      EndsWith (group tag commas forced parts) t
  | body {tag : Tag} {frame : Frame} {body t : Token} (hbare : frame.bare body = true)
      (ht : EndsWith body t) : EndsWith (bracket tag frame body) t

/-- The tree ends with a bare bracket round a body that is broken. -/
def LeavesBreak (broken : Token → Bool) (token : Token) : Prop :=
  ∃ tag frame body, token.EndsWith (bracket tag frame body) ∧ frame.bare body = true ∧
    broken body = true

variable {broken : Token → Bool}

theorem not_leavesBreak_leaf (tag : Tag) (role : LeafRole) (text : String) :
    ¬(leaf tag role text).LeavesBreak broken := by
  rintro ⟨_, _, _, hends, -⟩
  cases hends

theorem leavesBreak_group {tag : Tag} {commas : Bool} {forced : Option Bool} {parts : List Token}
    {last : Token} (hlast : parts.getLast? = some last) :
    (group tag commas forced parts).LeavesBreak broken ↔ last.LeavesBreak broken := by
  constructor
  · rintro ⟨tag', frame, body, hends, hbare, hbroken⟩
    cases hends with
    | part hlast' ht =>
      obtain rfl := Option.some.inj (hlast.symm.trans hlast')
      exact ⟨tag', frame, body, ht, hbare, hbroken⟩
  · rintro ⟨tag', frame, body, hends, hbare, hbroken⟩
    exact ⟨tag', frame, body, .part hlast hends, hbare, hbroken⟩

theorem leavesBreak_bracket {tag : Tag} {frame : Frame} {body : Token} :
    (bracket tag frame body).LeavesBreak broken ↔
      frame.bare body = true ∧ (broken body = true ∨ body.LeavesBreak broken) := by
  constructor
  · rintro ⟨tag', frame', body', hends, hbare, hbroken⟩
    cases hends with
    | refl => exact ⟨hbare, Or.inl hbroken⟩
    | body hbare' ht => exact ⟨hbare', Or.inr ⟨tag', frame', body', ht, hbare, hbroken⟩⟩
  · rintro ⟨hbare, hbroken | ⟨tag', frame', body', hends, hbare', hbroken⟩⟩
    · exact ⟨tag, frame, body, .refl _, hbare, hbroken⟩
    · exact ⟨tag', frame', body', .body hbare hends, hbare', hbroken⟩

/-! ## After the strokes of a tree -/

/-- After a bracket the page is fresh if its body left it so or a break follows, and no closing text
comes last. -/
theorem fresh_after (frame : Frame) (bare broken fresh : Bool) (level inner : Nat)
    (hclosing : frame.closing.isEmpty = false) :
    Stroke.freshAfterAll fresh (frame.after bare broken level inner) =
      (bare && (broken || fresh)) := by
  cases bare <;> cases broken <;>
    simp [Frame.after, Stroke.freshAfterAll, Stroke.freshAfter, hclosing]

mutual

/-- Whether the page is fresh after a tree does not depend on whether it was before. -/
theorem fresh_strokes (broken : Token → Bool) : ∀ (t : Token) (level : Nat) (fresh : Bool),
    t.Writable → t.Solid →
    (Stroke.freshAfterAll fresh (t.strokes broken level fresh) = true ↔ t.LeavesBreak broken)
  | leaf tag role text, _, fresh, _, hsolid => by
    have htext : text.isEmpty = false := by simpa [isSolid] using Every.root hsolid
    simp [strokes, Stroke.freshAfterAll, Stroke.freshAfter, htext, not_leavesBreak_leaf]
  | group tag commas forced parts, level, fresh, h, hsolid => by
    have hne : parts ≠ [] := by simpa [isSolid] using Every.root hsolid
    have hlast := List.getLast?_eq_some_getLast hne
    rw [strokes, leavesBreak_group hlast]
    exact fresh_partStrokes broken commas _ true parts level fresh h.part
      (fun p hp => Every.part hsolid hp) hlast
  | bracket tag frame body, level, fresh, h, hsolid => by
    have hclosing : frame.closing.isEmpty = false := by simpa [isSolid] using Every.root hsolid
    rw [strokes, leavesBreak_bracket, Stroke.freshAfterAll_append, fresh_after _ _ _ _ _ _ hclosing,
      Bool.and_eq_true, Bool.or_eq_true, Stroke.freshAfterAll_append,
      fresh_strokes broken body _ _ h.body (Every.body hsolid)]
  | blank tag, _, _, h, _ => absurd h (not_writable_blank tag)
  | foreign tag length multiline, _, _, h, _ => absurd h (not_writable_foreign tag length multiline)

theorem fresh_partStrokes (broken : Token → Bool) (commas split : Bool) :
    ∀ (first : Bool) (parts : List Token) (level : Nat) (fresh : Bool),
      (∀ part ∈ parts, part.Writable) → (∀ part ∈ parts, part.Solid) →
      ∀ {last : Token}, parts.getLast? = some last →
      (Stroke.freshAfterAll fresh (partStrokes broken commas split first parts level fresh) = true ↔
        last.LeavesBreak broken)
  | _, [], _, _, _, _, _, hlast => nomatch hlast
  | first, part :: parts, level, fresh, h, hsolid, last, hlast => by
    rw [partStrokes, Stroke.freshAfterAll_append]
    cases parts with
    | nil =>
      obtain rfl : part = last := by simpa using hlast
      rw [partStrokes, Stroke.freshAfterAll_append]
      exact fresh_strokes broken part _ _ (h part (by simp)) (hsolid part (by simp))
    | cons next parts =>
      rw [List.getLast?_cons_cons] at hlast
      exact fresh_partStrokes broken commas split false (next :: parts) level _
        (fun p hp => h p (by simp [hp])) (fun p hp => hsolid p (by simp [hp])) hlast

end

end Token

/-- A tree without empty texts leaves the page on a fresh line exactly if it ends with a bare
bracket round a body that takes several lines. -/
theorem Store.fresh_write_iff {store : Store} {id : TokenId} {t : Token}
    (ht : store.tree? id = some t) (h : t.Writable) (hsolid : t.Solid) (limits : Thresholds)
    (level : Nat) (page : Page) :
    (store.write limits id level page).1 = .ok () ∧
      ((store.write limits id level page).2.1.fresh = true ↔
        t.LeavesBreak (Token.broken limits store.memo)) := by
  obtain ⟨hok, hpage⟩ := write_of_writable ht h limits level page
  refine ⟨hok, ?_⟩
  rw [hpage, Page.fresh_applyAll]
  exact Token.fresh_strokes _ t level page.fresh h hsolid

/-- An operator before a list in brackets that is too long for one line. -/
theorem Store.fresh_write_iff_prefixed :
    let store : Store := { entries := #[⟨{}, .leaf .word "-"⟩, ⟨{}, .leaf .word "ab"⟩,
      ⟨{}, .group true none [1]⟩, ⟨{}, .bracket { opening := "[", closing := "]" } 2⟩,
      ⟨{}, .bracket { opening := "(", closing := ")", bareSingle := true } 3⟩,
      ⟨{}, .group false none [0, 4]⟩] }
    let limits : Thresholds := { maxLength := 1 }
    ∃ t, store.tree? 5 = some t ∧ t.Writable ∧ t.Solid ∧
      (store.write limits 5 (2 : Nat) {}).2.1.fresh = true ∧
      t.LeavesBreak (Token.broken limits store.memo) := by
  intro store limits
  have hfresh : (store.write limits 5 (2 : Nat) {}).2.1.fresh = true := by decide
  obtain ⟨t, ht, h, hsolid⟩ : ∃ t, store.tree? 5 = some t ∧ t.Writable ∧ t.Solid :=
    ⟨_, rfl, by decide, by decide⟩
  exact ⟨t, ht, h, hsolid, hfresh, (fresh_write_iff ht h hsolid limits 2 {}).2.1 hfresh⟩

/-- A bare bracket round a broken group of one leaf leaves a break behind. -/
theorem Store.fresh_write_bare :
    let store : Store := { entries := #[⟨{}, .leaf .word "x"⟩, ⟨{}, .group false (some true) [0]⟩,
      ⟨{}, .bracket { opening := "(", closing := ")", bareSingle := true } 1⟩] }
    ∃ t, store.tree? 2 = some t ∧ t.Writable ∧ t.Solid ∧ (store.write {} 2 0 {}).1 = .ok () ∧
      (store.write {} 2 0 {}).2.1.fresh = true ∧
      (store.write {} 2 0 {}).2.1.build = "x\r\n" := by
  intro store
  exact ⟨_, rfl, by decide, by decide, by decide, by decide, by decide⟩

end TokenLayout
