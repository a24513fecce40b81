import TokenLayout.Proofs.Strokes

/-!
# Where breaks fall

A token asks for breaks of its own (`Token.AsksBreak`): a broken group before its breakable parts,
a bracket on a line of its own before itself and its body, and a bracket with a broken body after
it. A tree declares a break wherever one of its tokens asks for one, by the offset in the flat text
at which the token occurs (`Token.DeclaresBreak`). These are exactly the breaks of the rendered tree
(`Store.mem_breaks_iff`).

Requests at the same point merge, so what counts is the set of points. `Stroke.Breaks` says what
strokes add to it, and goes through strokes one after the other whatever is empty among them
(`Stroke.Breaks.append`): a page on a fresh line stands at a point that is in the set already.
-/

namespace TokenLayout

/-! ## Points at which strokes ask for breaks -/

namespace Stroke

/-- From `offset` on, the strokes ask for breaks at the points `P`, but for the point at which the
page is on a fresh line when they begin. -/
def Breaks (fresh : Bool) (offset : Nat) (strokes : List Stroke) (P : Nat → Prop) : Prop :=
  ∀ p, (p ∈ requestsFrom offset strokes ∨ fresh = true ∧ p = offset) ↔
    (P p ∨ fresh = true ∧ p = offset)

variable {fresh : Bool} {offset : Nat} {strokes strokes' : List Stroke} {P Q : Nat → Prop}

/-- Later strokes ask for breaks behind the text of the earlier ones. -/
theorem requestsFrom_append (offset : Nat) (strokes strokes' : List Stroke) :
    requestsFrom offset (strokes ++ strokes') = requestsFrom offset strokes ++
      requestsFrom (offset + (contents strokes).length) strokes' := by
  induction strokes generalizing offset with
  | nil => simp [requestsFrom]
  | cons stroke strokes ih =>
    cases stroke with
    | text s => simp [requestsFrom, ih, content, Nat.add_assoc]
    | newline level => simp [requestsFrom, ih, content]

/-- A page that is on a fresh line stands at a point where a break was asked for, or has been on
that line since the strokes began. -/
theorem mem_requestsFrom_of_fresh (strokes : List Stroke) (fresh : Bool) (offset : Nat)
    (h : freshAfterAll fresh strokes = true) :
    offset + (contents strokes).length ∈ requestsFrom offset strokes ∨
      fresh = true ∧ offset + (contents strokes).length = offset := by
  induction strokes generalizing fresh offset with
  | nil => exact Or.inr ⟨h, rfl⟩
  | cons stroke strokes ih =>
    cases stroke with
    | newline level =>
      rcases ih true offset h with hmem | ⟨-, heq⟩
      · exact Or.inl (by simpa [requestsFrom, content] using Or.inr hmem)
      · exact Or.inl (by simpa [requestsFrom, content] using Or.inl heq)
    | text s =>
      rcases ih _ (offset + s.length) h with hmem | ⟨hfresh, heq⟩
      · exact Or.inl (by simpa [requestsFrom, content, Nat.add_assoc] using hmem)
      · obtain ⟨hbefore, hs⟩ := Bool.and_eq_true_iff.1 hfresh
        obtain rfl : s = "" := String.isEmpty_iff.1 hs
        exact Or.inr ⟨hbefore, by simpa [content] using heq⟩

theorem Breaks.congr (h : Breaks fresh offset strokes P) (hPQ : ∀ p, P p ↔ Q p) :
    Breaks fresh offset strokes Q :=
  fun p => (h p).trans (or_congr (hPQ p) Iff.rfl)

theorem breaks_nil : Breaks fresh offset [] fun _ => False :=
  fun p => by simp [requestsFrom]

theorem breaks_text (s : String) : Breaks fresh offset [.text s] fun _ => False :=
  fun p => by simp [requestsFrom]

theorem breaks_newline (level : Nat) : Breaks fresh offset [.newline level] (· = offset) :=
  fun p => by simp [requestsFrom]

/-- A break that is asked for on a fresh line is none. -/
theorem breaks_newline_of_fresh (level : Nat) :
    Breaks fresh offset (if fresh then [.newline level] else []) fun _ => False := by
  intro p
  cases fresh <;> simp [requestsFrom]

theorem Breaks.when (h : Breaks fresh offset strokes P) (condition : Bool) :
    Breaks fresh offset (if condition then strokes else []) fun p => condition = true ∧ P p := by
  cases condition
  · exact breaks_nil.congr (by simp)
  · exact h.congr (by simp)

/-- The breaks of strokes in a row are those of either. -/
theorem Breaks.append (h : Breaks fresh offset strokes P)
    (h' : Breaks (freshAfterAll fresh strokes) (offset + (contents strokes).length) strokes' Q) :
    Breaks fresh offset (strokes ++ strokes') fun p => P p ∨ Q p := by
  intro p
  -- The point between the two lists is in the set already if the page is on a fresh line there.
  have hbetween : freshAfterAll fresh strokes = true ∧ p = offset + (contents strokes).length →
      P p ∨ fresh = true ∧ p = offset := by
    rintro ⟨hfresh, rfl⟩
    exact (h _).1 (mem_requestsFrom_of_fresh strokes fresh offset hfresh)
  have hP := h p
  have hQ := h' p
  rw [requestsFrom_append, List.mem_append]
  grind

end Stroke

/-! ## Declared breaks -/

/-- The offset of the body in the flat text of a bracket. -/
def Frame.bodyStart (frame : Frame) (body : Token) : Nat :=
  if frame.bare body then 0 else frame.opening.length

namespace Token

/-- The offset of a part in the flat text of its group, or in the text of the parts after the first,
with the parts `before` standing before it. -/
def partStart (commas first : Bool) (before : List Token) : Nat :=
  (flats commas first before).length +
    if commas && !(first && before.isEmpty) then separatorText.length else 0

/-- The token `u` occurs in `t`, and starts at some offset of its flat text. -/
inductive Occurs : (t u : Token) → Nat → Prop
  | root (t : Token) : Occurs t t 0
  | part {tag : Tag} {commas : Bool} {forced : Option Bool} (before : List Token) {part : Token}
      (after : List Token) {u : Token} {p : Nat} (h : Occurs part u p) :
      Occurs (group tag commas forced (before ++ part :: after)) u
        (partStart commas true before + p)
  | body {tag : Tag} {frame : Frame} {body u : Token} {p : Nat} (h : Occurs body u p) :
      Occurs (bracket tag frame body) u (frame.bodyStart body + p)

/-- The token asks for a break of its own, at some offset of its flat text. -/
inductive AsksBreak (broken : Token → Bool) : Token → Nat → Prop
  /-- A broken group does so before a breakable part. -/
  | part {tag : Tag} {commas : Bool} {forced : Option Bool} (before : List Token) {part : Token}
      (after : List Token)
      (hbroken : broken (group tag commas forced (before ++ part :: after)) = true)
      (hpart : part.tag.breakable = true) :
      AsksBreak broken (group tag commas forced (before ++ part :: after))
        (partStart commas true before)
  | opening {tag : Tag} {frame : Frame} {body : Token} (hown : frame.ownLine = true) :
      AsksBreak broken (bracket tag frame body) 0
  | body {tag : Tag} {frame : Frame} {body : Token} (hown : frame.ownLine = true) :
      AsksBreak broken (bracket tag frame body) (frame.bodyStart body)
  | closing {tag : Tag} {frame : Frame} {body : Token} (hbroken : broken body = true) :
      AsksBreak broken (bracket tag frame body) (frame.bodyStart body + body.flat.length)

/-- A token that occurs in the tree asks for a break at this offset of the tree's flat text. -/
def DeclaresBreak (broken : Token → Bool) (t : Token) (p : Nat) : Prop :=
  ∃ u q r, t.Occurs u q ∧ u.AsksBreak broken r ∧ p = q + r

variable {broken : Token → Bool} {p : Nat}

/-- A leaf is never broken. -/
theorem not_declaresBreak_leaf (tag : Tag) (role : LeafRole) (text : String) :
    ¬(leaf tag role text).DeclaresBreak broken p := by
  rintro ⟨_, _, _, hoccurs, hasks, -⟩
  cases hoccurs
  cases hasks

theorem declaresBreak_group {tag : Tag} {commas : Bool} {forced : Option Bool}
    {parts : List Token} :
    (group tag commas forced parts).DeclaresBreak broken p ↔
      ∃ before part after, parts = before ++ part :: after ∧
        ((broken (group tag commas forced parts) = true ∧ part.tag.breakable = true ∧
            p = partStart commas true before) ∨
          ∃ q, part.DeclaresBreak broken q ∧ p = partStart commas true before + q) := by
  constructor
  · rintro ⟨u, q, r, hoccurs, hasks, rfl⟩
    cases hoccurs with
    | root =>
      cases hasks with
      | part before after hbroken hpart =>
        exact ⟨before, _, after, rfl, Or.inl ⟨hbroken, hpart, Nat.zero_add _⟩⟩
    | part before after h =>
      exact ⟨before, _, after, rfl, Or.inr ⟨_, ⟨u, _, r, h, hasks, rfl⟩, Nat.add_assoc _ _ _⟩⟩
  · rintro ⟨before, part, after, rfl, ⟨hbroken, hpart, rfl⟩ | ⟨_, ⟨u, q, r, h, hasks, rfl⟩, rfl⟩⟩
    · exact ⟨_, 0, _, .root _, .part before after hbroken hpart, (Nat.zero_add _).symm⟩
    · exact ⟨u, _, r, .part before after h, hasks, (Nat.add_assoc _ _ _).symm⟩

theorem declaresBreak_bracket {tag : Tag} {frame : Frame} {body : Token} :
    (bracket tag frame body).DeclaresBreak broken p ↔
      (frame.ownLine = true ∧ (p = 0 ∨ p = frame.bodyStart body)) ∨
        (∃ q, body.DeclaresBreak broken q ∧ p = frame.bodyStart body + q) ∨
        broken body = true ∧ p = frame.bodyStart body + body.flat.length := by
  constructor
  · rintro ⟨u, q, r, hoccurs, hasks, rfl⟩
    cases hoccurs with
    | root =>
      cases hasks with
      | opening hown => exact Or.inl ⟨hown, Or.inl rfl⟩
      | body hown => exact Or.inl ⟨hown, Or.inr (Nat.zero_add _)⟩
      | closing hbroken => exact Or.inr (Or.inr ⟨hbroken, Nat.zero_add _⟩)
    | body h => exact Or.inr (Or.inl ⟨_, ⟨u, _, r, h, hasks, rfl⟩, Nat.add_assoc _ _ _⟩)
  · rintro (⟨hown, rfl | rfl⟩ | ⟨_, ⟨u, q, r, h, hasks, rfl⟩, rfl⟩ | ⟨hbroken, rfl⟩)
    · exact ⟨_, 0, 0, .root _, .opening hown, rfl⟩
    · exact ⟨_, 0, _, .root _, .body hown, (Nat.zero_add _).symm⟩
    · exact ⟨u, _, r, .body h, hasks, (Nat.add_assoc _ _ _).symm⟩
    · exact ⟨_, 0, _, .root _, .closing hbroken, (Nat.zero_add _).symm⟩

/-! ## The breaks of a tree -/

theorem partStart_nil (commas first : Bool) :
    partStart commas first [] = (if commas && !first then separatorText else "").length := by
  cases commas <;> cases first <;> rfl

theorem partStart_cons (commas first : Bool) (part : Token) (before : List Token) :
    partStart commas first (part :: before) =
      partStart commas first [] + part.flat.length + partStart commas false before := by
  rw [partStart_nil, partStart, partStart, flats, String.length_append, String.length_append]
  simp [Nat.add_assoc]

end Token

theorem Frame.length_before_body (frame : Frame) (body : Token) :
    (if frame.bare body then "" else frame.opening).length = frame.bodyStart body := by
  rw [bodyStart]
  split <;> rfl

/-- Before its body, only a bracket on lines of its own breaks. -/
theorem Frame.breaks_before (frame : Frame) (body : Token) (fresh : Bool)
    (offset level inner : Nat) :
    Stroke.Breaks fresh offset (frame.before (frame.bare body) fresh level inner) fun p =>
      frame.ownLine = true ∧ (p = offset ∨ p = offset + frame.bodyStart body) := by
  cases hown : frame.ownLine with
  | true =>
    rw [before, if_pos hown, bodyStart, bare_of_ownLine hown]
    exact ((Stroke.breaks_newline level).append ((Stroke.breaks_text frame.opening).append
      (Stroke.breaks_newline inner))).congr (by simp [Stroke.content])
  | false =>
    rw [before, if_neg (by simp [hown])]
    exact ((Stroke.breaks_newline_of_fresh inner).append
      ((Stroke.breaks_text frame.opening).when _)).congr (by simp)

/-- Behind its body, a bracket breaks if the body is broken. -/
theorem Frame.breaks_after (frame : Frame) (bare broken fresh : Bool)
    (offset level inner : Nat) :
    Stroke.Breaks fresh offset (frame.after bare broken level inner) fun p =>
      broken = true ∧ p = offset :=
  (((Stroke.breaks_newline _).when broken).append
    ((Stroke.breaks_text frame.closing).when _)).congr (by simp)

namespace Token

/-- Before a part there is a break if the group is split and the part may start a line. -/
theorem breaks_lead (commas split first : Bool) (part : Token) (fresh : Bool)
    (offset level : Nat) :
    Stroke.Breaks fresh offset (lead commas split first part level) fun p =>
      split = true ∧ part.tag.breakable = true ∧ p = offset + partStart commas first [] := by
  rw [partStart_nil]
  refine (((Stroke.breaks_text separatorText).when _).append
    ((Stroke.breaks_newline _).when _)).congr fun p => ?_
  cases commas && !first <;> simp [Stroke.content, and_assoc]

mutual

/-- The strokes of a tree ask for breaks where the tree declares them. -/
theorem breaks_strokes (broken : Token → Bool) : ∀ (t : Token) (level : Nat) (fresh : Bool)
    (offset : Nat), t.Writable → Stroke.Breaks fresh offset (t.strokes broken level fresh) fun p =>
      ∃ q, t.DeclaresBreak broken q ∧ p = offset + q
  | leaf tag role text, _, _, _, _ => by
    rw [strokes]
    exact (Stroke.breaks_text text).congr (by simp [not_declaresBreak_leaf])
  | group tag commas forced parts, level, fresh, offset, h => by
    rw [strokes]
    refine (breaks_partStrokes broken commas _ true parts level fresh offset h.part).congr
      fun p => ?_
    simp only [declaresBreak_group]
    constructor
    · rintro ⟨before, part, after, rfl, ⟨hbroken, hpart, rfl⟩ | ⟨q, hq, rfl⟩⟩
      · exact ⟨_, ⟨before, part, after, rfl, Or.inl ⟨hbroken, hpart, rfl⟩⟩, rfl⟩
      · exact ⟨_, ⟨before, part, after, rfl, Or.inr ⟨q, hq, rfl⟩⟩, Nat.add_assoc _ _ _⟩
    · rintro ⟨_, ⟨before, part, after, rfl, ⟨hbroken, hpart, rfl⟩ | ⟨q, hq, rfl⟩⟩, rfl⟩
      · exact ⟨before, part, after, rfl, Or.inl ⟨hbroken, hpart, rfl⟩⟩
      · exact ⟨before, part, after, rfl, Or.inr ⟨q, hq, (Nat.add_assoc _ _ _).symm⟩⟩
  | bracket tag frame body, level, fresh, offset, h => by
    rw [strokes]
    refine (((frame.breaks_before body fresh offset level _).append
      (breaks_strokes broken body _ _ _ h.body)).append
      (frame.breaks_after _ _ _ _ level _)).congr fun p => ?_
    rw [Stroke.contents_append, contents_strokes, Frame.contents_before, String.length_append,
      frame.length_before_body]
    simp only [declaresBreak_bracket]
    constructor
    · rintro ((⟨hown, rfl | rfl⟩ | ⟨q, hq, rfl⟩) | ⟨hbroken, rfl⟩)
      · exact ⟨0, Or.inl ⟨hown, Or.inl rfl⟩, rfl⟩
      · exact ⟨_, Or.inl ⟨hown, Or.inr rfl⟩, rfl⟩
      · exact ⟨_, Or.inr (Or.inl ⟨q, hq, rfl⟩), Nat.add_assoc _ _ _⟩
      · exact ⟨_, Or.inr (Or.inr ⟨hbroken, rfl⟩), rfl⟩
    · rintro ⟨_, ⟨hown, rfl | rfl⟩ | ⟨q, hq, rfl⟩ | ⟨hbroken, rfl⟩, rfl⟩
      · exact Or.inl (Or.inl ⟨hown, Or.inl rfl⟩)
      · exact Or.inl (Or.inl ⟨hown, Or.inr rfl⟩)
      · exact Or.inl (Or.inr ⟨q, hq, (Nat.add_assoc _ _ _).symm⟩)
      · exact Or.inr ⟨hbroken, rfl⟩
  | blank tag, _, _, _, h => absurd h (not_writable_blank tag)
  | foreign tag length multiline, _, _, _, h => absurd h (not_writable_foreign tag length multiline)

theorem breaks_partStrokes (broken : Token → Bool) (commas split : Bool) :
    ∀ (first : Bool) (parts : List Token) (level : Nat) (fresh : Bool) (offset : Nat),
      (∀ part ∈ parts, part.Writable) →
      Stroke.Breaks fresh offset (partStrokes broken commas split first parts level fresh) fun p =>
        ∃ before part after, parts = before ++ part :: after ∧
          ((split = true ∧ part.tag.breakable = true ∧
              p = offset + partStart commas first before) ∨
            ∃ q, part.DeclaresBreak broken q ∧ p = offset + partStart commas first before + q)
  | _, [], _, _, _, _ => by
    rw [partStrokes]
    exact Stroke.breaks_nil.congr (by simp)
  | first, part :: parts, level, fresh, offset, h => by
    rw [partStrokes]
    refine (((breaks_lead commas split first part fresh offset level).append
      (breaks_strokes broken part _ _ _ (h part (by simp)))).append
      (breaks_partStrokes broken commas split false parts level _ _
        fun q hq => h q (by simp [hq]))).congr fun p => ?_
    rw [Stroke.contents_append, contents_strokes, contents_lead, String.length_append,
      ← partStart_nil]
    constructor
    · rintro ((⟨hsplit, hpart, rfl⟩ | ⟨q, hq, rfl⟩) | ⟨before, q, after, rfl, hq⟩)
      · exact ⟨[], part, parts, rfl, Or.inl ⟨hsplit, hpart, rfl⟩⟩
      · exact ⟨[], part, parts, rfl, Or.inr ⟨q, hq, rfl⟩⟩
      · refine ⟨part :: before, q, after, rfl, ?_⟩
        simpa only [partStart_cons, Nat.add_assoc] using hq
    · rintro ⟨before, q, after, hparts, hq⟩
      cases before with
      | nil =>
        obtain ⟨rfl, rfl⟩ := List.cons.inj hparts
        exact Or.inl hq
      | cons =>
        obtain ⟨rfl, rfl⟩ := List.cons.inj hparts
        refine Or.inr ⟨_, q, after, rfl, ?_⟩
        simpa only [partStart_cons, Nat.add_assoc] using hq

end

/-- The breaks in the lines of a tree are those that it declares. -/
theorem mem_breaks_lines {limits : Thresholds} {store : Store} {t : Token} (h : t.Writable)
    (hs : t.StandsIn store) (p : Nat) :
    p ∈ (t.lines limits store.memo).breaks ↔ t.DeclaresBreak (broken limits store.memo) p := by
  have hbreaks := breaks_strokes (broken limits store.memo) t 0 false 0 h
  rw [lines_eq_ofStrokes h hs, Lines.mem_breaks_ofStrokes]
  simpa using hbreaks p

end Token

/-- A tree is rendered as lines of its flat text, with breaks at the offsets where the tree declares
them and at no others. -/
theorem Store.mem_breaks_iff {store : Store} {id : TokenId} {t : Token}
    (ht : store.tree? id = some t) (h : t.Writable) (settings : Settings) :
    let lines := t.lines settings.toThresholds store.memo
    ((Build.render settings (.token id)).run store).1 =
        .ok (.ofText t.kind settings.newline
          (lines.build settings.indentWidth settings.newline)) ∧
      lines.Tight ∧ lines.flat = t.flat ∧
      ∀ p, p ∈ lines.breaks ↔
        t.DeclaresBreak (Token.broken settings.toThresholds store.memo) p := by
  intro lines
  obtain ⟨memo', hrender⟩ := Token.render_of_writable h settings store.memo
  refine ⟨by rw [Build.result_render settings ht, hrender], Lines.tight_ofStrokes _,
    Token.flat_lines h _ _, fun p => ?_⟩
  have hbreaks := Token.breaks_strokes (Token.broken settings.toThresholds store.memo) t 0 false 0 h
  have hlines : lines = .ofStrokes _ := Token.lines_eq_ofStrokes h (standsIn_of_tree? ht).2
  rw [hlines, Lines.mem_breaks_ofStrokes]
  simpa using hbreaks p

/-- A list that is too long, in a block of its own after an empty leaf. -/
theorem Store.mem_breaks_iff_block :
    let store : Store := { entries := #[⟨{}, .leaf .word ""⟩,
      ⟨{ breakable := true }, .leaf .word "ab"⟩, ⟨{ breakable := true }, .leaf .word "c"⟩,
      ⟨{}, .group true none [1, 2]⟩,
      ⟨{}, .bracket { opening := "<", closing := ">", ownLine := true } 3⟩,
      ⟨{}, .group false none [0, 4]⟩] }
    let settings : Settings := { maxLength := 2 }
    ∃ t, store.tree? 5 = some t ∧ t.Writable ∧
      (t.lines settings.toThresholds store.memo).breaks = [0, 1, 5, 6] ∧
      ∀ p, p ∈ (t.lines settings.toThresholds store.memo).breaks ↔
        t.DeclaresBreak (Token.broken settings.toThresholds store.memo) p := by
  intro store settings
  obtain ⟨t, ht, h, hbreaks⟩ : ∃ t, store.tree? 5 = some t ∧ t.Writable ∧
      (t.lines settings.toThresholds store.memo).breaks = [0, 1, 5, 6] :=
    ⟨_, rfl, by decide, by decide⟩
  exact ⟨t, ht, h, hbreaks, (mem_breaks_iff ht h settings).2.2.2⟩

end TokenLayout
