import Mathlib.Data.List.Perm.Subperm
import TokenLayout.Proofs.Breaks
import TokenLayout.Proofs.Decided
import TokenLayout.Proofs.Faithful

/-!
# What the settings do to a text

The lines of a tree that nothing was measured of depend on the tree and on the thresholds. Width and
terminator only say how the lines are written: a rendering is a fault or lines that are there before
either is known (`Store.exists_lines_of_thresholds`).

Looser thresholds take breaks away and put none in their place. A group that is too big for them is
too big for tighter ones, so what takes several lines under looser thresholds does so under tighter
ones (`Token.multiline?_mono`), and a tree declares a break wherever it did
(`Token.DeclaresBreak.mono`). So the breaks of the looser lines are among those of the tighter
(`Store.breaks_subset_of_le`).
-/

namespace TokenLayout

/-! ## Decisions under looser thresholds -/

section Loosening

variable {tight loose : Thresholds}

theorem Thresholds.exceeded_mono (hlength : tight.maxLength ≤ loose.maxLength)
    (hchildren : tight.maxChildren ≤ loose.maxChildren) {length : Int} {count : Nat}
    (h : loose.exceeded length count = true) : tight.exceeded length count = true := by
  simp only [exceeded, Bool.or_eq_true, decide_eq_true_eq] at h ⊢
  omega

namespace Token

theorem multiline?_group (limits : Thresholds) (tag : Tag) (commas : Bool) (parts : List Token) :
    (group tag commas none parts).multiline? limits = (lengths? parts).bind fun length =>
      if limits.exceeded length parts.length then some true else anyMultiline? limits parts := by
  rw [multiline?]
  rfl

theorem multiline?_bracket (limits : Thresholds) (tag : Tag) (frame : Frame) (body : Token) :
    (bracket tag frame body).multiline? limits =
      (body.multiline? limits).map (· || frame.ownLine) := by
  rw [multiline?]
  cases body.multiline? limits <;> rfl

theorem anyMultiline?_eq_none {limits : Thresholds} : ∀ {ts : List Token},
    anyMultiline? limits ts = none → ∃ t ∈ ts, t.multiline? limits = none
  | [], h => nomatch h
  | t :: ts, h => by
    cases ht : t.multiline? limits with
    | none => exact ⟨t, by simp, ht⟩
    | some b =>
      have hts : anyMultiline? limits ts = none := by cases b <;> simp_all [anyMultiline?]
      obtain ⟨u, hu, hnone⟩ := anyMultiline?_eq_none hts
      exact ⟨u, by simp [hu], hnone⟩

/-- A tree without a decision has no length either. -/
theorem length?_eq_none_of_multiline? {limits : Thresholds} {t : Token}
    (h : t.multiline? limits = none) : t.length? = none := by
  induction t using children_induction with
  | step t ih =>
    cases t with
    | leaf | foreign => simp [multiline?] at h
    | blank => rfl
    | bracket tag frame body =>
      rw [multiline?_bracket, Option.map_eq_none_iff] at h
      simp [length?, ih body (by simp [children]) h]
    | group tag commas forced parts =>
      cases forced with
      | some decision => simp [multiline?] at h
      | none =>
        rw [multiline?_group, Option.bind_eq_none_iff] at h
        rw [length?]
        cases hlength : lengths? parts with
        | none => rfl
        | some length =>
          have hany := h length hlength
          split at hany
          · cases hany
          · obtain ⟨p, hp, hnone⟩ := anyMultiline?_eq_none hany
            exact hlength.symm.trans (lengths?_eq_none_iff.2 ⟨p, hp, ih p hp hnone⟩)

/-- Whether a tree has a decision does not depend on the thresholds. -/
theorem multiline?_eq_none {limits : Thresholds} (limits' : Thresholds) {t : Token}
    (h : t.multiline? limits = none) : t.multiline? limits' = none := by
  induction t using children_induction with
  | step t ih =>
    cases t with
    | leaf | foreign => simp [multiline?] at h
    | blank => rfl
    | bracket tag frame body =>
      rw [multiline?_bracket, Option.map_eq_none_iff] at h ⊢
      exact ih body (by simp [children]) h
    | group tag commas forced parts =>
      cases forced with
      | some decision => simp [multiline?] at h
      | none =>
        have hlength : lengths? parts = none := length?_eq_none_of_multiline? h
        rw [multiline?_group, hlength, Option.bind_none]

theorem anyMultiline?_eq_true {limits : Thresholds} : ∀ {ts : List Token},
    (∀ t ∈ ts, t.multiline? limits ≠ none) →
      (anyMultiline? limits ts = some true ↔ ∃ t ∈ ts, t.multiline? limits = some true)
  | [], _ => by simp [anyMultiline?]
  | t :: ts, h => by
    have hts : anyMultiline? limits ts = some true ↔ ∃ t ∈ ts, t.multiline? limits = some true :=
      anyMultiline?_eq_true fun u hu => h u (by simp [hu])
    obtain ⟨b, ht⟩ := Option.ne_none_iff_exists'.1 (h t (by simp))
    cases b <;> simp [anyMultiline?, ht, hts]

/-- What takes several lines under looser thresholds does so under tighter ones. -/
theorem multiline?_mono (hlength : tight.maxLength ≤ loose.maxLength)
    (hchildren : tight.maxChildren ≤ loose.maxChildren) {t : Token}
    (h : t.multiline? loose = some true) : t.multiline? tight = some true := by
  induction t using children_induction with
  | step t ih =>
    cases t with
    | leaf | blank => simp [multiline?] at h
    | foreign => simpa [multiline?] using h
    | bracket tag frame body =>
      rw [multiline?_bracket] at h ⊢
      obtain ⟨b, hloose, hb⟩ := Option.map_eq_some_iff.1 h
      cases htight : body.multiline? tight with
      | none => simp [multiline?_eq_none loose htight] at hloose
      | some c =>
        cases b with
        | true =>
          obtain rfl : c = true :=
            Option.some.inj (htight.symm.trans (ih body (by simp [children]) hloose))
          rfl
        | false =>
          have hown : frame.ownLine = true := hb
          simp [hown]
    | group tag commas forced parts =>
      cases forced with
      | some decision => simpa [multiline?] using h
      | none =>
        rw [multiline?_group] at h ⊢
        obtain ⟨length, hlengths, hloose⟩ := Option.bind_eq_some_iff.1 h
        -- The group has a length, so all of its parts have decisions, whatever the thresholds.
        have hsome (limits : Thresholds) : ∀ p ∈ parts, p.multiline? limits ≠ none := by
          intro p hp hnone
          have hnone' := lengths?_eq_none_iff.2 ⟨p, hp, length?_eq_none_of_multiline? hnone⟩
          simp [hnone'] at hlengths
        rw [hlengths, Option.bind_some]
        split at hloose
        · rename_i hexceeded
          rw [if_pos (Thresholds.exceeded_mono hlength hchildren hexceeded)]
        · split
          · rfl
          · obtain ⟨p, hp, htrue⟩ := (anyMultiline?_eq_true (hsome loose)).1 hloose
            exact (anyMultiline?_eq_true (hsome tight)).2 ⟨p, hp, ih p hp htrue⟩

/-! ## Breaks under looser thresholds -/

theorem Occurs.mem_preorder {t u : Token} {p : Nat} (h : t.Occurs u p) : u ∈ t.preorder := by
  induction h with
  | root t => exact t.mem_preorder_self
  | part before after _ ih => exact mem_preorder_iff.2 (Or.inr ⟨_, by simp [children], ih⟩)
  | body _ ih => exact mem_preorder_iff.2 (Or.inr ⟨_, by simp [children], ih⟩)

/-- The more tokens of a tree are broken, the more breaks it declares. -/
theorem DeclaresBreak.mono {broken broken' : Token → Bool} {t : Token} {p : Nat}
    (hp : t.DeclaresBreak broken p)
    (h : ∀ u ∈ t.preorder, broken u = true → broken' u = true) : t.DeclaresBreak broken' p := by
  obtain ⟨u, q, r, hoccurs, hasks, rfl⟩ := hp
  have hu := hoccurs.mem_preorder
  refine ⟨u, q, r, hoccurs, ?_, rfl⟩
  cases hasks with
  | part before after hbroken hpart => exact .part before after (h _ hu hbroken) hpart
  | opening hown => exact .opening hown
  | body hown => exact .body hown
  | closing hbroken =>
    have hbody := mem_preorder_trans hu
      (mem_preorder_iff.2 (Or.inr ⟨_, List.mem_singleton_self _, mem_preorder_self _⟩))
    exact .closing (h _ hbody hbroken)

end Token

end Loosening

/-! ## Trees that nothing was measured of -/

/-- All cells are empty. -/
def Store.Unmeasured (store : Store) : Prop :=
  ∀ id, store.memo.get id = {}

namespace Store.Unmeasured

variable {store : Store}

theorem sound (h : store.Unmeasured) (allowed : Thresholds → Prop) : store.Sound allowed :=
  ⟨fun id n hn => by simp [h id] at hn, fun id b hb => by simp [h id] at hb⟩

/-- A token is broken if its tree says so. -/
theorem broken_iff (h : store.Unmeasured) {t : Token} (hw : t.Writable) (hs : t.StandsIn store)
    (limits : Thresholds) :
    t.broken limits store.memo = true ↔ t.multiline? limits = some true := by
  have hfound : t.multilineIn? limits store.memo = some (t.broken limits store.memo) :=
    Token.multilineIn?_of_writable hw hs
  rw [(h.sound (· = limits)).multilineIn?_eq hs] at hfound
  rw [hfound, Option.some.injEq]

theorem multiline_eq_true_iff (h : store.Unmeasured) (limits : Thresholds) (id : TokenId) :
    ((Build.multiline limits id).run store).1 = .ok true ↔
      ∃ t, store.tree? id = some t ∧ t.multiline? limits = some true := by
  cases ht : store.tree? id with
  | none => simp [Build.multiline, Build.tree, Attempt.run_bind, Attempt.require, ht]
  | some t =>
    rw [Build.result_multiline limits ht,
      (h.sound (· = limits)).multilineIn?_eq (standsIn_of_tree? ht).2]
    simp only [Option.some.injEq, exists_eq_left']
    cases t.multiline? limits <;> simp

/-- Under looser thresholds a tree has no breaks but those that it has under tighter ones. -/
theorem breaks_subset (h : store.Unmeasured) {t : Token} (hw : t.Writable) (hs : t.StandsIn store)
    {tight loose : Thresholds} (hlength : tight.maxLength ≤ loose.maxLength)
    (hchildren : tight.maxChildren ≤ loose.maxChildren) :
    (t.lines loose store.memo).breaks ⊆ (t.lines tight store.memo).breaks := by
  intro p hp
  rw [Token.mem_breaks_lines hw hs] at hp ⊢
  refine hp.mono fun u hu hbroken => ?_
  have hwu : u.Writable := hw.below hu
  have hsu : u.StandsIn store := hs.below hu
  rw [h.broken_iff hwu hsu] at hbroken ⊢
  exact Token.multiline?_mono hlength hchildren hbroken

end Store.Unmeasured

theorem Build.result_render_of_writable (settings : Settings) {store : Store} {id : TokenId}
    {t : Token} (ht : store.tree? id = some t) (h : t.Writable) :
    ((render settings (.token id)).run store).1 = .ok (.ofText t.kind settings.newline
      ((t.lines settings.toThresholds store.memo).build settings.indentWidth
        settings.newline)) := by
  obtain ⟨memo', hrender⟩ := Token.render_of_writable h settings store.memo
  rw [result_render settings ht, hrender]

/-- Looser thresholds only take breaks away. Every token that takes several lines under them does so
under tighter ones, and a tree that can be rendered has the same flat text and no other breaks, so
no more of them. -/
theorem Store.breaks_subset_of_le {store : Store} (hempty : store.Unmeasured) {id : TokenId}
    {t : Token} (ht : store.tree? id = some t) {tight loose : Settings}
    (hlength : tight.maxLength ≤ loose.maxLength)
    (hchildren : tight.maxChildren ≤ loose.maxChildren) :
    (∀ other, ((Build.multiline loose.toThresholds other).run store).1 = .ok true →
      ((Build.multiline tight.toThresholds other).run store).1 = .ok true) ∧
    (t.Writable →
      let looseLines := t.lines loose.toThresholds store.memo
      let tightLines := t.lines tight.toThresholds store.memo
      ((Build.render loose (.token id)).run store).1 = .ok (.ofText t.kind loose.newline
        (looseLines.build loose.indentWidth loose.newline)) ∧
      ((Build.render tight (.token id)).run store).1 = .ok (.ofText t.kind tight.newline
        (tightLines.build tight.indentWidth tight.newline)) ∧
      (looseLines.Tight ∧ looseLines.flat = t.flat) ∧
      (tightLines.Tight ∧ tightLines.flat = t.flat) ∧
      looseLines.breaks ⊆ tightLines.breaks ∧
      looseLines.breaks.length ≤ tightLines.breaks.length) ∧
    (¬t.Writable → ∀ settings rendering,
      ((Build.render settings (.token id)).run store).1 ≠ .ok rendering) := by
  refine ⟨fun other => ?_, fun hw => ?_, fun hw settings rendering hok => ?_⟩
  · rw [hempty.multiline_eq_true_iff, hempty.multiline_eq_true_iff]
    rintro ⟨u, hu, hloose⟩
    exact ⟨u, hu, Token.multiline?_mono hlength hchildren hloose⟩
  · intro looseLines tightLines
    have hlines (limits : Thresholds) : (t.lines limits store.memo).Tight ∧
        (t.lines limits store.memo).flat = t.flat :=
      ⟨Lines.tight_ofStrokes _, Token.flat_lines hw limits store.memo⟩
    have hsubset : looseLines.breaks ⊆ tightLines.breaks :=
      hempty.breaks_subset hw (standsIn_of_tree? ht).2 hlength hchildren
    have hnodup : looseLines.breaks.Nodup := (hlines _).1.pairwise_breaks.imp Nat.ne_of_lt
    exact ⟨Build.result_render_of_writable loose ht hw, Build.result_render_of_writable tight ht hw,
      hlines _, hlines _, hsubset, (List.subperm_of_subset hnodup hsubset).length_le⟩
  · exact hw ((fills_render settings ht).2 rendering hok).1

/-- A list in brackets, in a block of its own, is broken under the tighter thresholds only. -/
theorem Store.breaks_subset_of_le_block :
    let store : Store := { entries := #[⟨{ breakable := true }, .leaf .word "ab"⟩,
      ⟨{}, .group true none [0, 0]⟩,
      ⟨{ inset := 1 }, .bracket { opening := "(", closing := ")" } 1⟩,
      ⟨{}, .bracket { opening := "<", closing := ">", ownLine := true } 2⟩,
      ⟨{}, .group false none [0, 3]⟩] }
    let tight : Settings := { maxLength := 3 }
    let loose : Settings := { maxLength := 5, indentWidth := 0, newline := "\n" }
    ∃ t, store.tree? 4 = some t ∧ t.Writable ∧
      (t.lines loose.toThresholds store.memo).breaks = [0, 2, 3] ∧
      (t.lines tight.toThresholds store.memo).breaks = [0, 2, 3, 4, 8, 10, 11] ∧
      (t.lines loose.toThresholds store.memo).breaks ⊆
        (t.lines tight.toThresholds store.memo).breaks := by
  intro store tight loose
  obtain ⟨t, ht, hw, hloose, htight⟩ : ∃ t, store.tree? 4 = some t ∧ t.Writable ∧
      (t.lines loose.toThresholds store.memo).breaks = [0, 2, 3] ∧
      (t.lines tight.toThresholds store.memo).breaks = [0, 2, 3, 4, 8, 10, 11] :=
    ⟨_, rfl, by decide, by decide +kernel, by decide +kernel⟩
  have hempty : store.Unmeasured := fun _ => rfl
  have hlength : tight.maxLength ≤ loose.maxLength := by decide
  have hchildren : tight.maxChildren ≤ loose.maxChildren := by decide
  obtain ⟨-, hrendered, -⟩ := breaks_subset_of_le hempty ht hlength hchildren
  obtain ⟨-, -, -, -, hsubset, -⟩ := hrendered hw
  exact ⟨t, ht, hw, hloose, htight, hsubset⟩

/-- What becomes of a tree that nothing was measured of is a fault or lines, and which of them
depends on the thresholds alone. The width and the terminator say how the breaks are written. -/
theorem Store.exists_lines_of_thresholds (t : Token) (limits : Thresholds) :
    ∃ outcome : Except Fault Lines,
      (t.Writable → ∃ lines : Lines, outcome = .ok lines ∧ lines.Tight ∧ lines.flat = t.flat) ∧
      ∀ (store : Store) (id : TokenId), store.tree? id = some t → store.Unmeasured →
        ∀ settings : Settings, settings.toThresholds = limits →
          ((Build.render settings (.token id)).run store).1 = outcome.map fun lines =>
            .ofText t.kind settings.newline
              (lines.build settings.indentWidth settings.newline) := by
  refine ⟨((t.write limits 0).run false {}).result.map fun _ => t.lines limits {}, fun hw => ?_,
    fun store id ht hempty settings hlimits => ?_⟩
  · have hwrites : (t.write limits 0).Writes t.flat := Token.writes_write t 0 hw (by omega)
    obtain ⟨strokes, memo, _, hrun, -⟩ := hwrites false {}
    exact ⟨t.lines limits {}, by rw [hrun]; rfl, Lines.tight_ofStrokes _,
      Token.flat_lines hw limits {}⟩
  · subst hlimits
    obtain ⟨hstrokes, hresult⟩ :=
      (hempty.sound (· = settings.toThresholds)).write_eq (standsIn_of_tree? ht).2 0 false
    have hmemo : store.unmeasured.memo = {} := rfl
    rw [Build.result_render settings ht, Token.result_render, hstrokes, hresult, hmemo,
      Settings.page, Page.build_applyAll]
    cases ((t.write settings.toThresholds 0).run false {}).result <;> rfl

/-- A broken list of texts that look like breaks and padding, in brackets. -/
theorem Store.exists_lines_of_thresholds_lookalike :
    let store : Store := { entries := #[⟨{ breakable := true }, .leaf .word "\r\n  "⟩,
      ⟨{ breakable := true, inset := 2 }, .leaf .word " "⟩, ⟨{}, .group true none [0, 1]⟩,
      ⟨{}, .bracket { opening := "(", closing := ")" } 2⟩] }
    let limits : Thresholds := { maxLength := 2 }
    store.Unmeasured ∧ ∃ (t : Token) (lines : Lines), store.tree? 3 = some t ∧ t.Writable ∧
      lines.flat = "(\r\n  ,  )" ∧ ∀ width newline,
        ((Build.render ⟨limits, width, newline⟩ (.token 3)).run store).1 =
          .ok (.ofText t.kind newline (lines.build width newline)) := by
  intro store limits
  have hempty : store.Unmeasured := fun _ => rfl
  obtain ⟨t, ht, hw, hflat⟩ :
      ∃ t, store.tree? 3 = some t ∧ t.Writable ∧ t.flat = "(\r\n  ,  )" :=
    ⟨_, rfl, by decide, by decide⟩
  obtain ⟨outcome, hlines, hrender⟩ := exists_lines_of_thresholds t limits
  obtain ⟨lines, rfl, -, hflat'⟩ := hlines hw
  exact ⟨hempty, t, lines, ht, hw, hflat'.trans hflat,
    fun width newline => hrender store 3 ht hempty ⟨limits, width, newline⟩ rfl⟩

end TokenLayout
