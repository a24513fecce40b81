import TokenLayout.Proofs.Lines
import TokenLayout.Proofs.Subtrees
import TokenLayout.Token.Flat
import TokenLayout.Token.Render

/-!
# Wrapping only inserts breaks

A tree of leaves, groups and brackets is `Writable`: its layout comes to an end whatever the
memo holds, and the texts it asks for are those of the flat text, in order (`Token.writes_write`).
So a rendered tree is its flat text with breaks put in, each with the padding of a whole number of
levels (`Token.render_eq_build`).
-/

namespace TokenLayout

/-- Tokens of the kinds that have a layout. -/
def Kind.writable : Kind → Bool
  | .blank => false
  | .foreign => false
  | _ => true

namespace Token

/-- Every token of the tree has a layout. -/
def Writable (token : Token) : Prop :=
  token.Every fun t => t.kind.writable

instance (token : Token) : Decidable token.Writable :=
  inferInstanceAs (Decidable (token.Every fun t => t.kind.writable = true))

theorem Writable.part {tag : Tag} {commas : Bool} {forced : Option Bool} {parts : List Token}
    (h : (group tag commas forced parts).Writable) : ∀ part ∈ parts, part.Writable :=
  fun _ hp => Every.part h hp

theorem Writable.body {tag : Tag} {frame : Frame} {body : Token}
    (h : (bracket tag frame body).Writable) : body.Writable :=
  Every.body h

/-- A token without content cannot be written. -/
theorem not_writable_blank (tag : Tag) : ¬(blank tag).Writable :=
  fun h => Bool.noConfusion (Every.root h)

theorem not_writable_foreign (tag : Tag) (length : Int) (multiline : Bool) :
    ¬(foreign tag length multiline).Writable :=
  fun h => Bool.noConfusion (Every.root h)

end Token

/-! ## Readings that come to an end -/

namespace Reading

variable {α β : Type}

/-- The reading has a value, whatever the memo holds. -/
def Total (x : Reading α) : Prop :=
  ∀ memo, ∃ a memo', x.run memo = (some a, memo')

theorem total_pure (a : α) : (pure a : Reading α).Total :=
  fun memo => ⟨a, memo, rfl⟩

theorem Total.bind {x : Reading α} {f : α → Reading β} (hx : x.Total) (hf : ∀ a, (f a).Total) :
    (x >>= f).Total := by
  intro memo
  obtain ⟨a, memo₁, h₁⟩ := hx memo
  obtain ⟨b, memo₂, h₂⟩ := hf a memo₁
  exact ⟨b, memo₂, by rw [run_bind, h₁]; exact h₂⟩

theorem Total.keepLength {measure : Reading Int} (h : measure.Total) (id : TokenId) :
    (keepLength id measure).Total := by
  intro memo
  unfold Reading.keepLength
  cases hc : (memo.get id).length with
  | some n => exact ⟨n, memo, by simp [hc]⟩
  | none =>
    obtain ⟨n, memo', hm⟩ := h memo
    exact ⟨n, memo'.fillLength id n, by simp [hc, hm]⟩

theorem Total.keepMultiline {decide : Reading Bool} (h : decide.Total) (id : TokenId) :
    (keepMultiline id decide).Total := by
  intro memo
  unfold Reading.keepMultiline
  cases hc : (memo.get id).multiline with
  | some b => exact ⟨b, memo, by simp [hc]⟩
  | none =>
    obtain ⟨b, memo', hd⟩ := h memo
    exact ⟨b, memo'.fillMultiline id b, by simp [hc, hd]⟩

end Reading

namespace Token

mutual

/-- In a tree that can be written there is nothing that has no length. -/
theorem total_readLength : ∀ t : Token, t.Writable → t.readLength.Total
  | leaf .., _ => Reading.total_pure _
  | group _ _ _ parts, h => (total_readLengths parts h.part).keepLength _
  | bracket _ _ body, h =>
    (total_readLength body h.body).bind fun _ => Reading.total_pure _
  | blank _, h => absurd h (not_writable_blank _)
  | foreign .., _ => Reading.total_pure _

theorem total_readLengths :
    ∀ ts : List Token, (∀ t ∈ ts, t.Writable) → (readLengths ts).Total
  | [], _ => Reading.total_pure _
  | t :: ts, h => (total_readLength t (h t (by simp))).bind fun _ =>
    (total_readLengths ts fun u hu => h u (by simp [hu])).bind fun _ => Reading.total_pure _

end

mutual

/-- Nor is there anything that takes no decision. -/
theorem total_readMultiline (limits : Thresholds) :
    ∀ t : Token, t.Writable → (t.readMultiline limits).Total
  | leaf .., _ => Reading.total_pure _
  | group _ _ (some _) _, _ => (Reading.total_pure _).keepMultiline _
  | group tag commas none parts, h => by
    rw [readMultiline]
    refine Reading.Total.keepMultiline ?_ _
    refine (total_readLength _ h).bind fun length => ?_
    split
    · exact Reading.total_pure _
    · exact total_readAnyMultiline limits parts h.part
  | bracket _ _ body, h =>
    (total_readMultiline limits body h.body).bind fun _ => Reading.total_pure _
  | blank _, h => absurd h (not_writable_blank _)
  | foreign .., _ => Reading.total_pure _

theorem total_readAnyMultiline (limits : Thresholds) :
    ∀ ts : List Token, (∀ t ∈ ts, t.Writable) → (readAnyMultiline limits ts).Total
  | [], _ => Reading.total_pure _
  | t :: ts, h => by
    rw [readAnyMultiline]
    refine (total_readMultiline limits t (h t (by simp))).bind fun multiline => ?_
    split
    · exact Reading.total_pure _
    · exact total_readAnyMultiline limits ts fun u hu => h u (by simp [hu])

end

end Token

/-! ## Layouts that write a text -/

namespace Layout

variable {α β : Type}

/-- Wherever the layout starts, it comes to an end, and the texts it asks for make up `s`. -/
def Writes (x : Layout α) (s : String) : Prop :=
  ∀ fresh memo, ∃ strokes memo' a,
    x.run fresh memo = ⟨strokes, memo', .ok a⟩ ∧ Stroke.contents strokes = s

theorem writes_pure (a : α) : (pure a : Layout α).Writes "" :=
  fun _ memo => ⟨[], memo, a, rfl, rfl⟩

/-- Two layouts write their texts one after the other. -/
theorem Writes.bind {x : Layout α} {f : α → Layout β} {s s' : String} (hx : x.Writes s)
    (hf : ∀ a, (f a).Writes s') : (x >>= f).Writes (s ++ s') := by
  intro fresh memo
  obtain ⟨strokes, memo₁, a, h₁, rfl⟩ := hx fresh memo
  obtain ⟨strokes', memo₂, b, h₂, rfl⟩ := hf a (Stroke.freshAfterAll fresh strokes) memo₁
  refine ⟨strokes ++ strokes', memo₂, b, ?_, Stroke.contents_append _ _⟩
  rw [run_bind, h₁]
  simp [h₂]

/-- What asks for no text can come first. -/
theorem Writes.after {x : Layout α} {f : α → Layout β} {s : String}
    (hf : ∀ a, (f a).Writes s) (hx : x.Writes "") : (x >>= f).Writes s := by
  simpa using hx.bind hf

theorem writes_onFreshLine : onFreshLine.Writes "" :=
  fun fresh memo => ⟨[], memo, fresh, rfl, rfl⟩

theorem writes_text (s : String) : (text s).Writes s :=
  fun _ memo => ⟨[.text s], memo, (), rfl, by simp [Stroke.content]⟩

/-- A break writes no text. -/
theorem writes_newline {level : Int} (h : 0 ≤ level) : (newline level).Writes "" := by
  obtain ⟨n, rfl⟩ := Int.eq_ofNat_of_zero_le h
  exact fun fresh memo => ⟨[.newline n], memo, (), run_newline n fresh memo, rfl⟩

/-- Measuring writes nothing if there is something to measure. -/
theorem writes_reading {x : Reading α} (hx : x.Total) : (reading x).Writes "" := by
  intro fresh memo
  obtain ⟨a, memo', h⟩ := hx memo
  exact ⟨[], memo', a, by simp [reading, h], rfl⟩

theorem Writes.when {x : Layout Unit} {s : String} (hx : x.Writes s) (condition : Bool) :
    (when condition x).Writes (if condition then s else "") := by
  cases condition
  · exact writes_pure ()
  · exact hx

theorem Writes.when_empty {x : Layout Unit} (hx : x.Writes "") (condition : Bool) :
    (Layout.when condition x).Writes "" := by
  simpa using hx.when condition

end Layout

namespace Token

variable {limits : Thresholds}

mutual

/-- A layout asks for the flat text. -/
theorem writes_write : ∀ (t : Token) (level : Int), t.Writable → 0 ≤ level →
    (t.write limits level).Writes t.flat
  | leaf _ _ text, _, _, _ => by
    rw [write, flat]
    exact Layout.writes_text text
  | group tag commas forced parts, level, h, hl => by
    rw [write, flat]
    refine .after (fun broken => ?_) (Layout.writes_reading (total_readMultiline limits _ h))
    exact writes_writeParts commas broken true parts level h.part hl
  | bracket _ frame body, level, h, hl => by
    have hbody : body.Writable := h.body
    have hread := Layout.writes_reading (total_readMultiline limits body hbody)
    have hinner (broken : Bool) : 0 ≤ if broken then level + 1 else level := by
      split <;> omega
    have hwrite (broken : Bool) :=
      writes_write body ((if broken then level + 1 else level) + body.tag.inset) hbody
        (Int.add_nonneg (hinner broken) (Int.natCast_nonneg _))
    rw [write, flat]
    split
    · rename_i hown
      rw [if_neg (by simp [Frame.bare, hown]), String.append_assoc]
      refine .after (fun _ => ?_) (Layout.writes_newline hl)
      refine (Layout.writes_text frame.opening).bind fun _ => ?_
      refine .after (fun broken => ?_) hread
      refine .after (fun _ => ?_) (Layout.writes_newline (hinner broken))
      refine (hwrite broken).bind fun _ => ?_
      refine .after (fun _ => ?_) ((Layout.writes_newline hl).when_empty broken)
      exact Layout.writes_text frame.closing
    · have hflat : (if frame.bare body then body.flat
          else frame.opening ++ body.flat ++ frame.closing) =
          (if !frame.bare body then frame.opening else "") ++
            (body.flat ++ if !frame.bare body then frame.closing else "") := by
        cases frame.bare body <;> simp [String.append_assoc]
      have hclose (broken : Bool) :
          0 ≤ if frame.bare body then level else if broken then level + 1 else level := by
        split
        · exact hl
        · exact hinner broken
      rw [hflat]
      refine .after (fun fresh => ?_) Layout.writes_onFreshLine
      refine .after (fun broken => ?_) hread
      refine .after (fun _ => ?_) ((Layout.writes_newline (hinner broken)).when_empty fresh)
      refine ((Layout.writes_text frame.opening).when _).bind fun _ => ?_
      refine (hwrite broken).bind fun _ => ?_
      refine .after (fun _ => ?_) ((Layout.writes_newline (hclose broken)).when_empty broken)
      exact (Layout.writes_text frame.closing).when _
  | blank tag, _, h, _ => absurd h (not_writable_blank tag)
  | foreign tag length multiline, _, h, _ => absurd h (not_writable_foreign tag length multiline)

theorem writes_writeParts (commas broken : Bool) : ∀ (first : Bool) (parts : List Token)
    (level : Int), (∀ part ∈ parts, part.Writable) → 0 ≤ level →
    (writeParts limits commas broken first parts level).Writes (flats commas first parts)
  | _, [], _, _, _ => by
    rw [writeParts, flats]
    exact Layout.writes_pure ()
  | first, part :: parts, level, h, hl => by
    have hinner : 0 ≤ level + part.tag.inset := Int.add_nonneg hl (Int.natCast_nonneg _)
    rw [writeParts, flats, String.append_assoc]
    refine ((Layout.writes_text separatorText).when _).bind fun _ => ?_
    refine .after (fun _ => ?_) ((Layout.writes_newline hinner).when_empty _)
    refine (writes_write part _ (h part (by simp)) hinner).bind fun _ => ?_
    exact writes_writeParts commas broken false parts level (fun p hp => h p (by simp [hp])) hl

end

/-- The lines of a token that is written at level zero on an empty page. -/
def lines (limits : Thresholds) (memo : Memo) (token : Token) : Lines :=
  .ofStrokes ((token.write limits 0).run false memo).strokes

/-- A tree is rendered as its lines. -/
theorem render_of_writable {token : Token} (h : token.Writable) (settings : Settings)
    (memo : Memo) : ∃ memo', token.render settings memo =
      (.ok (.ofText token.kind settings.newline
        ((token.lines settings.toThresholds memo).build settings.indentWidth settings.newline)),
        memo') := by
  have hwrites : (token.write settings.toThresholds 0).Writes token.flat :=
    writes_write token 0 h (by omega)
  obtain ⟨strokes, memo', _, hrun, -⟩ := hwrites false memo
  refine ⟨memo', ?_⟩
  simp only [render, Page.write, Settings.page, Page.fresh, Option.isSome_none, hrun, lines,
    Page.build_applyAll]
  rfl

/-- However its lines are broken, a tree spells its flat text. -/
theorem flat_lines {token : Token} (h : token.Writable) (limits : Thresholds) (memo : Memo) :
    (token.lines limits memo).flat = token.flat := by
  have hwrites : (token.write limits 0).Writes token.flat := writes_write token 0 h (by omega)
  obtain ⟨strokes, memo', _, hrun, hs⟩ := hwrites false memo
  rw [lines, Lines.flat_ofStrokes, hrun, hs]

/-- Wrapping only inserts breaks. A rendered tree is its flat text cut into lines, each break
written as a terminator and the padding of a whole number of levels, and no two breaks on the same
point. Nothing depends on what the memo holds. -/
theorem render_eq_build (settings : Settings) (memo : Memo) {token : Token} (h : token.Writable) :
    ∃ (rendering : Rendering) (memo' : Memo) (lines : Lines),
      token.render settings memo = (.ok rendering, memo') ∧
      rendering.text = lines.build settings.indentWidth settings.newline ∧
      lines.Tight ∧ lines.flat = token.flat := by
  obtain ⟨memo', hr⟩ := render_of_writable h settings memo
  exact ⟨_, memo', token.lines settings.toThresholds memo, hr, rfl, Lines.tight_ofStrokes _,
    flat_lines h _ _⟩

/-- A broken list in brackets whose cell is filled, between an empty leaf and a block of its own. -/
theorem render_eq_build_list :
    let list : Token := .bracket { id := 3 } { opening := "[", closing := "]" }
      (.group { id := 2 } true none [.leaf { id := 0 } .word "a", .leaf { id := 1 } .word ""])
    let block : Token :=
      .bracket { id := 5 } { opening := "<", closing := ">", ownLine := true } list
    let root : Token := .group { id := 6 } false none [.leaf { id := 4 } .separator "", block]
    let memo : Memo := Memo.fillMultiline {} 2 true
    root.Writable ∧ ∃ (rendering : Rendering) (memo' : Memo) (lines : Lines),
      root.render {} memo = (.ok rendering, memo') ∧ rendering.text = lines.build 3 "\r\n" ∧
      lines.Tight ∧ lines.flat = root.flat := by
  intro list block root memo
  have h : root.Writable := by decide
  exact ⟨h, render_eq_build {} memo h⟩

end Token

end TokenLayout
